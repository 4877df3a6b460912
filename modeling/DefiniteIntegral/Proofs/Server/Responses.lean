import DefiniteIntegral.Proofs.Integration.Outcomes
import DefiniteIntegral.Server.Http

/-! # Answers over HTTP

Which response a request for an integral gets: its status and its code go by the first check that
does not pass. -/

namespace DefiniteIntegral

/-! ## Responses about errors -/

namespace HttpResponse

/-- Whether a response reports an error with a status and a code. -/
def Reports (response : HttpResponse) (status : Nat) (code : String) : Prop :=
  response.status = status ∧ ∃ message,
    response.body = (Json.Value.object
      [("error", .string message), ("code", .string code)]).compact

theorem reports_withHeaders {response : HttpResponse} {headers : List (String × String)}
    {status : Nat} {code : String} :
    (response.withHeaders headers).Reports status code ↔ response.Reports status code :=
  Iff.rfl

/-- The body of every response about an error that the client is not the cause of. -/
def internalBody : String :=
  "\x7b\"error\":\"Internal server error during integration\",\"code\":\"INTERNAL_ERROR\"\x7d"

end HttpResponse

namespace Error

variable (e : Error Float)

theorem status_toResponse : e.toResponse.status = e.code.status := rfl

theorem body_toResponse :
    e.toResponse.body = (Json.Value.object
      [("error", .string e.publicMessage), ("code", .string e.code.name)]).compact := rfl

theorem toResponse_reports : e.toResponse.Reports e.code.status e.code.name :=
  ⟨e.status_toResponse, e.publicMessage, e.body_toResponse⟩

/-- A client is told everything about what it is the cause of. -/
theorem publicMessage_of_isClientError (h : e.isClientError) : e.publicMessage = e.message := by
  cases e with
  | invalidExpression fault => rfl
  | evaluation x fault => rfl
  | invalidRequest fault => rfl
  | config fault => cases h
  | io fault => cases h
  | server fault => cases h

/-- Nothing about an internal error is told. -/
theorem body_toResponse_of_internal (h : e.code = .internal) :
    e.toResponse.body = HttpResponse.internalBody := by
  have hmessage : e.publicMessage = "Internal server error during integration" := by
    rw [publicMessage, h]
  rw [body_toResponse, hmessage, h]
  decide +kernel

end Error

namespace Server

variable {server : Server} {entropy : UInt64} {request : Request Float} {http : HttpRequest}

/-! ## Random sources -/

theorem randomSource_of_unknown
    (h : server.config.source ≠ "pseudo" ∧ server.config.source ≠ "seeded") :
    server.randomSource entropy = .error (.config (.unknownSource server.config.source)) := by
  obtain ⟨hpseudo, hseeded⟩ := h
  have hnone : SourceKind.ofName? server.config.source = none := by
    simp [SourceKind.ofName?, SourceKind.all, SourceKind.name, hpseudo.symm, hseeded.symm]
  rw [randomSource, Source.ofName, hnone]

theorem exists_randomSource
    (h : server.config.source = "pseudo" ∨ server.config.source = "seeded") :
    ∃ source, server.randomSource entropy = .ok source := by
  rcases h with h | h
  · exact ⟨_, by rw [randomSource, h]; rfl⟩
  · exact ⟨_, by rw [randomSource, h]; rfl⟩

/-! ## Integrals -/

theorem integrate_of_inadmissible (h : ¬ request.Admissible) :
    ∃ fault, server.integrate entropy request = .error (.invalidRequest fault) := by
  obtain ⟨fault, hfault⟩ := Request.exists_validate_eq_error h
  exact ⟨fault, by rw [integrate, hfault]; rfl⟩

theorem integrate_of_admissible (h : request.Admissible) :
    server.integrate entropy request =
      server.randomSource entropy >>= fun source => source.compute request := by
  rw [integrate, Request.validate_eq_ok h]
  rfl

/-! ## The route -/

theorem integrateResponse_of_unreadable {fault : BodyFault}
    (h : http.integralRequest = .error fault) :
    server.integrateResponse entropy http =
      (Error.invalidRequest (.body fault)).toResponse := by
  rw [integrateResponse, h]
  rfl

theorem integrateResponse_of_ok {result : Result Float} (h : http.integralRequest = .ok request)
    (hresult : server.integrate entropy request = .ok result) :
    server.integrateResponse entropy http = .json 200 result.toJson := by
  simp only [integrateResponse, h, Except.mapError, ok_bind, hresult]

theorem integrateResponse_of_error {e : Error Float} (h : http.integralRequest = .ok request)
    (he : server.integrate entropy request = .error e) :
    server.integrateResponse entropy http = e.toResponse := by
  simp only [integrateResponse, h, Except.mapError, ok_bind, he]

theorem respondTo_eq_integrateResponse (allowed : List String) (hverb : http.verb = "POST")
    (hpath : http.path = "/integrate") :
    server.respondTo entropy allowed http =
      (server.integrateResponse entropy http).withHeaders (originHeaders allowed http) := by
  have hroute : Route.ofPath? http.path = some .integrate := by rw [hpath]; rfl
  have htakes : Route.integrate.takes "POST" = true := by decide
  simp [respondTo, routed, hroute, hverb, htakes, routeResponse]

/-- A response about an integral has one of five statuses with their codes. -/
theorem integrateResponse_cases (entropy : UInt64) (server : Server) (http : HttpRequest) :
    (server.integrateResponse entropy http).status = 200 ∨
      (server.integrateResponse entropy http).Reports 422 "INVALID_REQUEST" ∨
      ((server.integrateResponse entropy http).Reports 500 "INTERNAL_ERROR" ∧
        (server.integrateResponse entropy http).body = HttpResponse.internalBody) ∨
      (server.integrateResponse entropy http).Reports 400 "INVALID_EXPRESSION" ∨
      (server.integrateResponse entropy http).Reports 400 "EVALUATION_ERROR" := by
  rw [integrateResponse]
  split
  · exact .inl rfl
  · rename_i e _
    have hreports := e.toResponse_reports
    cases hcode : e.code with
    | invalidExpression => rw [hcode] at hreports; exact .inr (.inr (.inr (.inl hreports)))
    | evaluation => rw [hcode] at hreports; exact .inr (.inr (.inr (.inr hreports)))
    | invalidRequest => rw [hcode] at hreports; exact .inr (.inl hreports)
    | internal =>
        rw [hcode] at hreports
        exact .inr (.inr (.inl ⟨hreports, e.body_toResponse_of_internal hcode⟩))

/-- The checks that are left once a request is admissible and has a random source. -/
theorem integrateResponse_of_source {source : Source} (h : http.integralRequest = .ok request)
    (hadmissible : request.Admissible) (hsource : server.randomSource entropy = .ok source) :
    let response := server.integrateResponse entropy http
    (∀ fault : ExpressionFault Float, Integrand.compile request.function = .error fault →
      response.Reports 400 "INVALID_EXPRESSION") ∧
    ∀ f : Integrand Float, Integrand.compile request.function = .ok f →
      let nodes := request.nodes (source.stream.take request.points).1
      ((∃ x ∈ nodes, ∃ fault, f.eval x = .error fault) →
        response.Reports 400 "EVALUATION_ERROR") ∧
      ((∀ x ∈ nodes, ∃ y, f.eval x = .ok y) →
        ∃ q, (request.estimate f Source.draw source).1 = .ok q ∧
          (¬ q.isFinite → response.Reports 422 "INVALID_REQUEST") ∧
          (q.isFinite → response.status = 200 ∧
            response.body = (request.record q).toJson.compact)) := by
  have hintegrate : server.integrate entropy request =
      ((request.compute Source.draw).run source).1 := by
    rw [integrate_of_admissible hadmissible, hsource]
    rfl
  have hdraws : request.method = .monteCarlo →
      ((Source.draw request.points).run source).1 = .ok (source.stream.take request.points).1 :=
    fun _ => Source.run_draw
  refine ⟨fun fault hfault => ?_, fun f hf => ⟨fun hundefined => ?_, fun hdefined => ?_⟩⟩
  · rw [Request.run_compute_of_compile_error hfault] at hintegrate
    rw [integrateResponse_of_error h hintegrate]
    exact Error.toResponse_reports _
  · obtain ⟨x, -, fault, -, hcompute⟩ :=
      Request.compute_of_undefined f hadmissible.enough hdraws hf hundefined
    rw [integrateResponse_of_error h (hintegrate.trans hcompute)]
    exact Error.toResponse_reports _
  · obtain ⟨q, hq, hcompute⟩ := Request.compute_of_defined f hadmissible.enough hdraws hf hdefined
    rw [hcompute, Request.conclude] at hintegrate
    refine ⟨q, hq, fun hoverflow => ?_, fun hfinite => ?_⟩
    · rw [if_neg hoverflow] at hintegrate
      rw [integrateResponse_of_error h hintegrate]
      exact Error.toResponse_reports _
    · rw [if_pos hfinite] at hintegrate
      rw [integrateResponse_of_ok h hintegrate]
      exact ⟨rfl, rfl⟩

/-- Every response about an integral. The checks are made in this order: the body and its headers
are read, the bounds and the number of points are admissible, the configuration names a random
source, the expression is one, the function has a value at every node, and the estimate is finite.
The first that does not pass decides the status and the code, and there are no others. -/
theorem respondTo_integrate (entropy : UInt64) (server : Server) (allowed : List String)
    {http : HttpRequest} (hverb : http.verb = "POST") (hpath : http.path = "/integrate") :
    let response := server.respondTo entropy allowed http
    (∀ fault, http.integralRequest = .error fault → response.Reports 422 "INVALID_REQUEST") ∧
    (∀ request, http.integralRequest = .ok request →
      (¬ request.Admissible → response.Reports 422 "INVALID_REQUEST") ∧
      (request.Admissible →
        (server.config.source ≠ "pseudo" ∧ server.config.source ≠ "seeded" →
          response.Reports 500 "INTERNAL_ERROR" ∧ response.body = HttpResponse.internalBody) ∧
        (server.config.source = "pseudo" ∨ server.config.source = "seeded" →
          ∃ source, server.randomSource entropy = .ok source ∧
            (∀ fault : ExpressionFault Float, Integrand.compile request.function = .error fault →
              response.Reports 400 "INVALID_EXPRESSION") ∧
            ∀ f : Integrand Float, Integrand.compile request.function = .ok f →
              let nodes := request.nodes (source.stream.take request.points).1
              ((∃ x ∈ nodes, ∃ fault, f.eval x = .error fault) →
                response.Reports 400 "EVALUATION_ERROR") ∧
              ((∀ x ∈ nodes, ∃ y, f.eval x = .ok y) →
                ∃ q, (request.estimate f Source.draw source).1 = .ok q ∧
                  (¬ q.isFinite → response.Reports 422 "INVALID_REQUEST") ∧
                  (q.isFinite → response.status = 200 ∧
                    response.body = (request.record q).toJson.compact))))) ∧
    (response.status = 200 ∨ response.Reports 422 "INVALID_REQUEST" ∨
      (response.Reports 500 "INTERNAL_ERROR" ∧ response.body = HttpResponse.internalBody) ∨
      response.Reports 400 "INVALID_EXPRESSION" ∨ response.Reports 400 "EVALUATION_ERROR") := by
  intro response
  have hresponse : response = _ := respondTo_eq_integrateResponse allowed hverb hpath
  rw [hresponse]
  refine ⟨fun fault hfault => ?_, fun request hrequest => ⟨fun hbad => ?_, fun hadmissible => ?_⟩,
    integrateResponse_cases entropy server http⟩
  · rw [integrateResponse_of_unreadable hfault]
    exact HttpResponse.reports_withHeaders.mpr (Error.toResponse_reports _)
  · obtain ⟨fault, hfault⟩ := integrate_of_inadmissible hbad
    rw [integrateResponse_of_error hrequest hfault]
    exact HttpResponse.reports_withHeaders.mpr (Error.toResponse_reports _)
  refine ⟨fun hunknown => ?_, fun hknown => ?_⟩
  · have hintegrate : server.integrate entropy request = _ := integrate_of_admissible hadmissible
    rw [randomSource_of_unknown hunknown] at hintegrate
    rw [integrateResponse_of_error hrequest hintegrate]
    exact ⟨HttpResponse.reports_withHeaders.mpr (Error.toResponse_reports _),
      Error.body_toResponse_of_internal _ rfl⟩
  · obtain ⟨source, hsource⟩ : ∃ source, server.randomSource entropy = .ok source :=
      exists_randomSource hknown
    exact ⟨source, hsource, integrateResponse_of_source hrequest hadmissible hsource⟩

/-- Three requests to a server whose source has no such name and to one with a fixed seed: too few
points are told before the source, and the source before the expression. -/
theorem respondTo_integrate_in_order :
    let server (source : String) : Server := start { Config.standard with source }
    let post (body : String) : HttpRequest :=
      ⟨"POST", "/integrate", [("content-type", "application/json")], body⟩
    ((server "dice").respondTo 0 [] (post "[\"1/\", 0, 1, 9]")).Reports 422 "INVALID_REQUEST" ∧
    ((server "dice").respondTo 0 [] (post "[\"1/\", 0, 1]")).body = HttpResponse.internalBody ∧
    ((server "seeded").respondTo 0 [] (post "[\"1/\", 0, 1]")).Reports
      400 "INVALID_EXPRESSION" := by
  intro server post
  have hpath : ∀ body, (post body).path = "/integrate" := fun _ =>
    (by decide +kernel : (post "").path = "/integrate")
  have hnine : (post "[\"1/\", 0, 1, 9]").integralRequest = .ok ⟨"1/", 0, 1, 9, .standard⟩ :=
    toOption_eq_some_iff.mp (by decide +kernel)
  have hall : (post "[\"1/\", 0, 1]").integralRequest =
      .ok ⟨"1/", 0, 1, standardPoints, .standard⟩ :=
    toOption_eq_some_iff.mp (by decide +kernel)
  have hadmissible : Request.Admissible (⟨"1/", 0, 1, standardPoints, .standard⟩ : Request Float) :=
    ⟨by decide +kernel, by decide +kernel, by decide, by decide⟩
  refine ⟨?_, ?_, ?_⟩
  · obtain ⟨-, hread, -⟩ := respondTo_integrate 0 (server "dice") [] rfl (hpath "[\"1/\", 0, 1, 9]")
    exact (hread _ hnine).1 fun hnot => absurd hnot.2.2.1 (by decide)
  · obtain ⟨-, hread, -⟩ := respondTo_integrate 0 (server "dice") [] rfl (hpath "[\"1/\", 0, 1]")
    exact (((hread _ hall).2 hadmissible).1 ⟨by decide, by decide⟩).2
  · obtain ⟨-, hread, -⟩ :=
      respondTo_integrate 0 (server "seeded") [] rfl (hpath "[\"1/\", 0, 1]")
    obtain ⟨source, -, hcompile, -⟩ := ((hread _ hall).2 hadmissible).2 (.inr rfl)
    have hshort : ¬ (Integrand.compile "1/" : Except (ExpressionFault Float) _).toBool := by
      decide +kernel
    cases hfault : (Integrand.compile "1/" : Except (ExpressionFault Float) _) with
    | error fault => exact hcompile fault hfault
    | ok f => simp [hfault, Except.toBool] at hshort

end Server

end DefiniteIntegral
