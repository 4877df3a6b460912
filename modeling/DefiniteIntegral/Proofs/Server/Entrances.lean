import DefiniteIntegral.Command.Run
import DefiniteIntegral.Proofs.Command.Action
import DefiniteIntegral.Proofs.Server.Request
import DefiniteIntegral.Proofs.Server.Responses

/-! # One request at three entrances

A request over HTTP, over a socket and on a command line. Each entrance reads, checks and reports it
in an order of its own. With the same seed all of them come to one answer, which each is compared
with. -/

namespace DefiniteIntegral

/-! ## Answers with a seed -/

namespace Source

variable {source : Source} {entropy seed : UInt64} {request : Request Float} {e : Error Float}

/-- The source of a seed. -/
def ofSeed (seed : UInt64) : Source :=
  ⟨.seeded, Stream.ofSeed seed⟩

theorem ofName_seeded : ofName entropy "seeded" seed = .ok (ofSeed seed) :=
  rfl

/-- There are always random numbers. -/
theorem isClientError_of_compute_eq_error (hadmissible : request.Admissible)
    (he : source.compute request = .error e) : e.isClientError :=
  Request.isClientError_of_compute_eq_error hadmissible (fun _ => run_draw) he

end Source

namespace Request

variable {request : Request Float} {seed : UInt64} {e : Error Float}

/-- The answer to a request with the random numbers of a seed. -/
def answer (request : Request Float) (seed : UInt64) : Except (Error Float) (Result Float) := do
  request.validate
  (Source.ofSeed seed).compute request

theorem isClientError_of_answer_eq_error (he : request.answer seed = .error e) :
    e.isClientError := by
  rw [answer] at he
  by_cases hadmissible : request.Admissible
  · rw [validate_eq_ok hadmissible, ok_bind] at he
    exact Source.isClientError_of_compute_eq_error hadmissible he
  · obtain ⟨fault, hfault⟩ := exists_validate_eq_error hadmissible
    rw [hfault] at he
    cases he
    rfl

end Request

/-! ## Over HTTP -/

/-- Whether a request posts a JSON text to a path. -/
structure HttpRequest.Posts (http : HttpRequest) (path text : String) : Prop where
  verb_eq : http.verb = "POST"
  path_eq : http.path = path
  isJson : (http.header? "content-type").any MediaType.isJson
  body_eq : http.body = text

namespace Server

variable {server : Server} {entropy : UInt64} {request : Request Float} {text : String}
  {http : HttpRequest}

/-- What stands behind a request is of no concern over HTTP. -/
theorem requestAtStart_of_requestOfText (h : Json.requestOfText text = .ok request) :
    Json.requestAtStart text = .ok request := by
  rw [Json.requestOfText, Json.ofText] at h
  rcases hread : Json.read text with ⟨value, rest⟩
  rw [hread] at h
  obtain ⟨first, hfirst, hrest⟩ := bind_eq_ok_iff.mp h
  rw [Json.requestAtStart, hread, hfirst]
  split at hrest
  · exact congrArg Except.ok (Except.ok.inj hrest)
  · cases hrest

theorem integralRequest_of_posts (hpost : http.Posts "/integrate" text)
    (hsize : text.utf8ByteSize ≤ maxBodyLength) (h : Json.requestOfText text = .ok request) :
    http.integralRequest = .ok request := by
  rw [HttpRequest.integralRequest, hpost.body_eq, if_neg (not_not.mpr hpost.isJson),
    if_neg (Nat.not_lt.mpr hsize), requestAtStart_of_requestOfText h]
  rfl

theorem integrate_of_seeded (h : server.config.source = "seeded") :
    server.integrate entropy request = request.answer server.config.seed := by
  rw [integrate, randomSource, h, Source.ofName_seeded]
  rfl

/-! ## Over a socket -/

/-- What the sender of a text hears first. -/
def replyTo (entropy : UInt64) (server : Server) (text : String) (reply : QueueId) :
    Option Message :=
  let before := (server.hub.queues reply).messages
  ((server.handleText entropy text reply).hub.queues reply).messages[before.length]?

theorem integrateText_of_requestOfText (h : Json.requestOfText text = .ok request) :
    server.integrateText entropy text = server.integrate entropy request := by
  rw [integrateText, h]
  rfl

theorem replyTo_of_error {reply : QueueId} {e : Error Float}
    (haccepts : (server.hub.queues reply).accepts)
    (he : server.integrateText entropy text = .error e) :
    server.replyTo entropy text reply = some (.error e.message) := by
  rw [replyTo, handleText_of_error reply he]
  simp [Hub.queues_send_of_accepts haccepts, Queue.append]

theorem replyTo_of_ok {reply : QueueId} {data : Result Float}
    (haccepts : (server.hub.queues reply).accepts)
    (hdata : server.integrateText entropy text = .ok data) :
    server.replyTo entropy text reply = some (.result data) := by
  rw [replyTo, handleText_of_ok reply hdata]
  -- The update comes behind the result, if at all.
  obtain ⟨later, hlater⟩ : (server.hub.queues reply).messages ++ [.result data] <+:
      ((server.hub.respond reply (.result data) (.update data)).queues reply).messages := by
    have hsent : ((server.hub.send reply (.result data)).queues reply).messages =
        (server.hub.queues reply).messages ++ [.result data] := by
      rw [Hub.queues_send_of_accepts haccepts]
      rfl
    rw [← hsent]
    exact messages_isPrefix_deliver
  simp [← hlater]

end Server

/-! ## On a command line -/

/-- Whether options ask for the record of a request with the random numbers of a seed. -/
@[mk_iff]
structure IntegrateOptions.Asks (options : IntegrateOptions) (request : Request Float)
    (seed : UInt64) : Prop where
  function_eq : options.function = some request.function
  lower_eq : options.lower = some request.lower
  upper_eq : options.upper = some request.upper
  points_eq : options.points.map UInt64.toNat = some request.points
  method_eq : options.method.bind Method.ofName? = some request.method
  format_eq : options.format = some "json"
  seed_eq : options.seed = some seed
  output_eq : options.output = none
  listMethods_eq : options.listMethods = false
  listFormats_eq : options.listFormats = false

instance (options : IntegrateOptions) (request : Request Float) (seed : UInt64) :
    Decidable (options.Asks request seed) :=
  decidable_of_iff' _ (options.asks_iff request seed)

/-- Whether a command line asks for the record of a request with the random numbers of a seed. -/
def LineAsks (words : List String) (request : Request Float) (seed : UInt64) : Prop :=
  ∃ options, Command.ofLine words = .ok (.integrate options) ∧ options.Asks request seed

instance (words : List String) (request : Request Float) (seed : UInt64) :
    Decidable (LineAsks words request seed) :=
  match h : Command.ofLine words with
  | .ok (.integrate options) =>
    decidable_of_iff (options.Asks request seed) (by simp [LineAsks, h])
  | .ok (.serve _) => isFalse (by simp [LineAsks, h])
  | .ok (.config _) => isFalse (by simp [LineAsks, h])
  | .ok (.status _) => isFalse (by simp [LineAsks, h])
  | .error _ => isFalse (by simp [LineAsks, h])

section CommandLine

variable {options : IntegrateOptions} {request : Request Float} {seed entropy : UInt64}
  {config : Config} {store : Store} {place : Workplace} {words : List String}

namespace IntegrateOptions.Asks

theorem request_eq (h : options.Asks request seed) :
    options.request config = .ok request := by
  obtain ⟨name, hname, hmethod⟩ := Option.bind_eq_some_iff.mp h.method_eq
  obtain ⟨points, hpoints, hn⟩ := Option.map_eq_some_iff.mp h.points_eq
  have hchosen : options.chooseMethod config = .ok request.method := by
    simp only [chooseMethod, hname, hmethod]
  simp only [IntegrateOptions.request, h.function_eq, h.lower_eq, h.upper_eq, hchosen, ok_bind,
    hpoints, Option.getD_some, hn]
  rfl

theorem outputText_eq (h : options.Asks request seed) :
    options.outputText entropy config =
      (request.answer seed).map fun result => result.toJson.pretty := by
  have hformat : options.chooseFormat config = .ok .json := by
    have hname : OutputFormat.ofName? "json" = some .json := by decide +kernel
    simp only [chooseFormat, h.format_eq, Option.getD_some, hname]
  have hsource : options.chooseSource entropy config = .ok (Source.ofSeed seed) := by
    rw [chooseSource, h.seed_eq]
    rfl
  rw [outputText, h.request_eq, ok_bind, hformat, hsource, Request.answer]
  cases request.validate with
  | error e => rfl
  | ok _ =>
      simp only [ok_bind]
      cases (Source.ofSeed seed).compute request <;> rfl

end IntegrateOptions.Asks

theorem runLine_of_lineAsks (h : LineAsks words request seed)
    (hload : place.store.load = .ok (config, store)) :
    (runLine entropy words place).1 =
      match request.answer seed with
      | .ok result => ⟨0, IntegrateOptions.withLineEnd result.toJson.pretty, ""⟩
      | .error e => ⟨1, "", "Error: " ++ e.message ++ "\n"⟩ := by
  obtain ⟨options, hoptions, hasks⟩ := h
  simp only [runLine, hoptions, Command.run, IntegrateOptions.run, hasks.listMethods_eq,
    hasks.listFormats_eq, Bool.false_eq_true, ↓reduceIte, Action.run_bind, Action.run_loadConfig,
    hload, Action.run_settle, hasks.outputText_eq, hasks.output_eq]
  cases request.answer seed <;> rfl

end CommandLine

/-! ## Together -/

/-- What is wrong with the request of a client, if the message is about that. -/
def Message.fault? : Message → Option String
  | .error text => some text
  | _ => none

/-- A request as a JSON object with all of its fields. -/
def Request.toJson (request : Request Float) : Json.Value :=
  .object [
    ("function", .string request.function),
    ("lower_bound", .real request.lower),
    ("upper_bound", .real request.upper),
    ("num_points", .natural request.points),
    ("method", .string request.method.name)]

/-- Whether a response, a message and an ending tell one result, or one error. -/
def Concur (response : HttpResponse) (message : Option Message) (ending : Ending) : Prop :=
  (∃ result : Result Float,
    response.status = 200 ∧ response.body = result.toJson.compact ∧
      message = some (.result result) ∧
      ending = ⟨0, IntegrateOptions.withLineEnd result.toJson.pretty, ""⟩) ∨
  ∃ text code,
    response.status ≠ 200 ∧
      response.body =
        (Json.Value.object [("error", .string text), ("code", .string code)]).compact ∧
      message = some (.error text) ∧ ending = ⟨1, "", "Error: " ++ text ++ "\n"⟩

namespace Server

/-- The entrances agree about every request, if each of them reads it and has the same seed: the
record is the same, or else the wording of the error. -/
theorem entrances_concur {server : Server} {request : Request Float} {text : String}
    {http : HttpRequest} {reply : QueueId} {words : List String} {place : Workplace}
    {config : Config} {store : Store} (hread : Json.requestOfText text = .ok request)
    (hsize : text.utf8ByteSize ≤ maxBodyLength) (hpost : http.Posts "/integrate" text)
    (hsource : server.config.source = "seeded") (haccepts : (server.hub.queues reply).accepts)
    (hline : LineAsks words request server.config.seed)
    (hload : place.store.load = .ok (config, store)) (allowed : List String)
    (first second third : UInt64) :
    Concur (server.respondTo first allowed http) (server.replyTo second text reply)
      (runLine third words place).1 := by
  have hbody : http.integralRequest = .ok request := integralRequest_of_posts hpost hsize hread
  have hfirst : server.integrate first request = request.answer server.config.seed :=
    integrate_of_seeded hsource
  have hsecond : server.integrateText second text = request.answer server.config.seed := by
    rw [integrateText_of_requestOfText hread, integrate_of_seeded hsource]
  rw [respondTo_eq_integrateResponse allowed hpost.verb_eq hpost.path_eq,
    runLine_of_lineAsks hline hload]
  cases hanswer : request.answer server.config.seed with
  | ok result =>
      rw [hanswer] at hfirst hsecond
      rw [integrateResponse_of_ok hbody hfirst]
      exact .inl ⟨result, rfl, rfl, replyTo_of_ok haccepts hsecond, rfl⟩
  | error e =>
      rw [hanswer] at hfirst hsecond
      have hclient : e.isClientError := Request.isClientError_of_answer_eq_error hanswer
      have hstatus : e.toResponse.status ≠ 200 := by
        rw [e.status_toResponse]
        cases e.code <;> decide
      have htold : e.toResponse.body = (Json.Value.object
          [("error", .string e.message), ("code", .string e.code.name)]).compact := by
        rw [e.body_toResponse, e.publicMessage_of_isClientError hclient]
      rw [integrateResponse_of_error hbody hfirst]
      exact .inr ⟨e.message, e.code.name, hstatus, htold, replyTo_of_error haccepts hsecond, rfl⟩

theorem entrances_concur_monte_carlo :
    let server : Server :=
      { start { Config.standard with source := "seeded" } with
        hub := Hub.empty.run [.openQueue 1] }
    let text := "[\"x * x\", 0, 1.5, 10, \"monte_carlo\"]"
    let http : HttpRequest :=
      ⟨"POST", "/integrate", [("content-type", "application/json")], text⟩
    let words := ["integrate", "x * x", "-a0", "--upper=1.5", "-n", "10", "-m", "Monte_Carlo",
      "--seed", "42", "-f", "json"]
    Concur (server.respondTo 1 [] http) (server.replyTo 2 text 0)
      (runLine 3 words ⟨"", .empty, .empty⟩).1 := by
  intro server text http words
  have hread : Json.requestOfText text = .ok ⟨"x * x", 0, 1.5, 10, .monteCarlo⟩ :=
    toOption_eq_some_iff.mp (by decide +kernel)
  have hpost : http.Posts "/integrate" text :=
    ⟨rfl, by decide +kernel, by decide +kernel, rfl⟩
  have hline : LineAsks words ⟨"x * x", 0, 1.5, 10, .monteCarlo⟩ 42 := by decide +kernel
  obtain ⟨⟨config, store⟩, hload⟩ : ∃ loaded, Store.empty.load = .ok loaded := by
    have hok : Store.empty.load.toBool := by decide +kernel
    cases hloaded : Store.empty.load with
    | ok loaded => exact ⟨loaded, rfl⟩
    | error fault => simp [hloaded, Except.toBool] at hok
  exact entrances_concur hread (by decide +kernel) hpost rfl (by decide) hline hload [] 1 2 3

/-- A bound that is not read back from the JSON text it is written as, so that the command line
fails at another point; and a command line that finds a configuration it cannot read. -/
theorem entrances_differ :
    let server : Server :=
      { start { Config.standard with source := "seeded" } with
        hub := Hub.empty.run [.openQueue 1] }
    let response (text : String) :=
      server.respondTo 0 []
        ⟨"POST", "/integrate", [("content-type", "application/json")], text⟩
    let words (function lower : String) := ["integrate", function, "--lower", lower, "--upper", "1",
      "--points", "10", "--method", "trapezoidal", "--format", "json", "--seed", "42"]
    let root : Request Float := ⟨"sqrt(-x)", 0.09090909090909091, 1, 10, .trapezoidal⟩
    let identity : Request Float := ⟨"x", 0, 1, 10, .trapezoidal⟩
    (LineAsks (words "sqrt(-x)" "0.09090909090909091") root 42 ∧
      ¬ Concur (response root.toJson.compact) (server.replyTo 0 root.toJson.compact 0)
        (runLine 0 (words "sqrt(-x)" "0.09090909090909091") ⟨"", .empty, .empty⟩).1) ∧
    LineAsks (words "x" "0") identity 42 ∧
      ¬ Concur (response identity.toJson.compact) (server.replyTo 0 identity.toJson.compact 0)
        (runLine 0 (words "x" "0") ⟨"", .file (some "="), .empty⟩).1 := by
  intro server response words root identity
  refine ⟨⟨by decide +kernel, ?_⟩, by decide +kernel, ?_⟩
  · rintro (⟨result, hstatus, -⟩ | ⟨text, code, -, -, hmessage, hending⟩)
    · have hrefused : (response root.toJson.compact).status = 400 := by decide +kernel
      rw [hstatus] at hrefused
      cases hrefused
    · have hdiffer : ((server.replyTo 0 root.toJson.compact 0).bind Message.fault?).map
            (fun text => "Error: " ++ text ++ "\n") ≠
          some (runLine 0 (words "sqrt(-x)" "0.09090909090909091")
            ⟨"", .empty, .empty⟩).1.remarks := by
        decide +kernel
      rw [hmessage, hending] at hdiffer
      exact hdiffer rfl
  · rintro (⟨result, -, -, -, hending⟩ | ⟨text, code, hstatus, -⟩)
    · have hfails : (runLine 0 (words "x" "0") ⟨"", .file (some "="), .empty⟩).1.status = 1 := by
        decide +kernel
      rw [hending] at hfails
      cases hfails
    · exact hstatus (by decide +kernel)

end Server

end DefiniteIntegral
