import DefiniteIntegral.Proofs.Server.Running

/-! # Origins

Pages of which origins may read the answers of a server: those that its configuration named when it
started and that can be the value of a header, whatever is asked and whatever has happened since. -/

namespace DefiniteIntegral

/-! ## Lists of origins -/

section Allowed

variable {origins allowed : List String}

/-- Only an origin that stands for all others keeps a server from starting. -/
theorem allowedOrigins?_eq :
    allowedOrigins? origins =
      if "*" ∈ origins then none else some (origins.filter isHeaderValue) := by
  have hlegal : isHeaderValue "*" = true := by decide
  simp [allowedOrigins?, hlegal]

theorem allowedOrigins?_eq_some_iff :
    allowedOrigins? origins = some allowed ↔
      "*" ∉ origins ∧ origins.filter isHeaderValue = allowed := by
  rw [allowedOrigins?_eq]
  split <;> simp [*]

end Allowed

/-! ## Headers of requests -/

namespace HttpRequest

variable {request : HttpRequest} {origin : String}

/-- Whether a request has one header about its origin, with this value. -/
def HasOrigin (request : HttpRequest) (origin : String) : Prop :=
  (request.headers.filter fun entry => entry.1.toLower = "origin").map Prod.snd = [origin]

theorem HasOrigin.header?_eq (h : request.HasOrigin origin) :
    request.header? "origin" = some origin := by
  rw [header?, ← List.head?_filter, ← List.head?_map, h]
  rfl

end HttpRequest

/-! ## Headers of responses -/

namespace HttpResponse

variable {response : HttpResponse} {headers : List (String × String)}

/-- The origins that a list of headers lets in. -/
def grants (headers : List (String × String)) : List String :=
  (headers.filter fun entry => entry.1 = "access-control-allow-origin").map Prod.snd

@[simp] theorem grants_nil : grants [] = [] := rfl

@[simp] theorem grants_cons (name value : String) :
    grants ((name, value) :: headers) =
      if name = "access-control-allow-origin" then value :: grants headers else grants headers := by
  by_cases h : name = "access-control-allow-origin" <;> simp [grants, h]

@[simp] theorem grants_withHeaders :
    grants (response.withHeaders headers).headers = grants response.headers ++ grants headers := by
  simp [grants, withHeaders]

@[simp] theorem grants_withoutBody :
    grants response.withoutBody.headers = grants response.headers := rfl

@[simp] theorem grants_bare (status : Nat) : grants (bare status).headers = [] := by
  simp [bare, lengthHeader]

@[simp] theorem grants_plain (status : Nat) (text : String) :
    grants (plain status text).headers = [] := by
  simp [plain, lengthHeader]

@[simp] theorem grants_json (status : Nat) (value : Json.Value) :
    grants (json status value).headers = [] := by
  simp [json, lengthHeader]

end HttpResponse

open HttpResponse

section Responses

variable {server : Server} {entropy : UInt64} {request : HttpRequest} {allowed : List String}
  {origin : String}

/-- If a response itself lets nobody in, it is only the origin of the request that counts. -/
theorem grants_withOriginHeaders {response : HttpResponse} (hnone : grants response.headers = [])
    (h : request.HasOrigin origin) :
    grants (response.withHeaders (originHeaders allowed request)).headers =
      if origin ∈ allowed then [origin] else [] := by
  rw [grants_withHeaders, hnone, originHeaders, h.header?_eq]
  by_cases hmem : origin ∈ allowed <;> simp [hmem]

@[simp] theorem grants_toResponse (e : Error Float) : grants e.toResponse.headers = [] :=
  grants_json _ _

theorem grants_refuseSocket : grants request.refuseSocket.headers = [] := by
  dsimp only [HttpRequest.refuseSocket]
  split_ifs <;> exact grants_plain _ _

theorem grants_preflight : grants (preflight request).headers = [] := by
  rw [preflight]
  split <;> simp

namespace Server

theorem grants_integrateResponse :
    grants (server.integrateResponse entropy request).headers = [] := by
  rw [integrateResponse]
  split <;> simp

theorem grants_routeResponse (route : Route) :
    grants (server.routeResponse entropy request route).headers = [] := by
  cases route with
  | health => exact grants_json _ _
  | methods => exact grants_json _ _
  | integrate => exact grants_integrateResponse
  | socket => exact grants_refuseSocket

theorem grants_routed : grants (server.routed entropy request).headers = [] := by
  rw [routed]
  split
  · exact grants_bare 404
  · split
    · dsimp only
      split <;> simp [grants_routeResponse]
    · simp

theorem grants_respondTo (h : request.HasOrigin origin) :
    grants (server.respondTo entropy allowed request).headers =
      if origin ∈ allowed then [origin] else [] := by
  rw [respondTo]
  split
  · exact grants_withOriginHeaders grants_preflight h
  · exact grants_withOriginHeaders grants_routed h

/-- A server that has not been given an origin for all others answers whatever is asked of it, and
whatever has happened to it. It lets in the origins that it started with, less those that cannot be
the value of a header: the answer to a request from one of them names it, and the answer to any
other request with an origin names none. -/
theorem respond?_grants {config : Config} (h : "*" ∉ config.origins) (past : List Occurrence)
    (entropy : UInt64) {request : HttpRequest} {origin : String}
    (horigin : request.HasOrigin origin) :
    let server := (start config).after past
    allowedOrigins? server.origins = some (config.origins.filter isHeaderValue) ∧
    ∃ response, server.respond? entropy request = some response ∧
      grants response.headers =
        if origin ∈ config.origins ∧ isHeaderValue origin then [origin] else [] := by
  intro server
  have horigins : server.origins = config.origins := after_origins past
  have hallowed : allowedOrigins? server.origins = some (config.origins.filter isHeaderValue) :=
    allowedOrigins?_eq_some_iff.mpr ⟨horigins ▸ h, by rw [horigins]⟩
  refine ⟨hallowed, server.respondTo entropy (config.origins.filter isHeaderValue) request, ?_, ?_⟩
  · rw [respond?, hallowed, Option.map_some]
  · rw [grants_respondTo horigin]
    simp only [List.mem_filter]

/-- Three origins of which the second is no header value, and a later change that lets everybody in:
the third is let in by the answer about a path that is none, and the second and those of the change
are not. -/
theorem respond?_grants_third :
    let config : Config := { Config.standard with origins := ["http://a", "\x01", "http://b"] }
    let past : List Occurrence :=
      [.openSocket, .configure { config with origins := ["*", "http://c"] }]
    let request (origin : String) : HttpRequest :=
      ⟨"OPTIONS", "/nowhere", [("Origin", origin), ("Accept", "*")], ""⟩
    let granted (origin : String) : Option (List String) :=
      (((start config).after past).respond? 0 (request origin)).map fun response =>
        grants response.headers
    granted "http://b" = some ["http://b"] ∧ granted "\x01" = some [] ∧
      granted "http://c" = some [] := by
  intro config past request granted
  have hstar : "*" ∉ config.origins := by decide
  have hgranted : ∀ origin, granted origin =
      some (if origin ∈ config.origins ∧ isHeaderValue origin then [origin] else []) := by
    intro origin
    have horigin : (request origin).HasOrigin origin := by
      have hname : "Origin".toLower = "origin" ∧ "Accept".toLower ≠ "origin" := by decide +kernel
      simp [HttpRequest.HasOrigin, request, hname]
    obtain ⟨-, response, hresponse, hgrants⟩ := respond?_grants hstar past 0 horigin
    simp only [granted, hresponse, Option.map_some, hgrants]
  refine ⟨?_, ?_, ?_⟩
  · rw [hgranted]
    decide
  · rw [hgranted]
    decide
  · rw [hgranted]
    decide

end Server

end Responses

end DefiniteIntegral
