import DefiniteIntegral.Identity
import DefiniteIntegral.Server.MediaType
import DefiniteIntegral.Server.State
import DefiniteIntegral.Text.Pieces

/-! What a server answers over HTTP: the routes, the methods that each takes, the errors as JSON,
and the headers that let pages of other origins read the answers.

The requests here come one at a time and are no connections, so that none of them turns into a
socket: `/ws` never answers with status 101, and the sockets that do open are those of
`Server.openSession`. Bodies and values of headers are texts; bytes that are no text cannot be asked
with. The uptime is that of a server that has just started. -/

namespace DefiniteIntegral

/-! ## Requests and responses -/

/-- A request. -/
structure HttpRequest where
  verb : String
  target : String
  headers : List (String × String)
  body : String
deriving DecidableEq, Repr

/-- A response. -/
structure HttpResponse where
  status : Nat
  headers : List (String × String)
  body : String
deriving DecidableEq, Repr

namespace HttpRequest

/-- The value of a header, whose name is in small letters. -/
def header? (request : HttpRequest) (name : String) : Option String :=
  (request.headers.find? fun entry => entry.1.toLower = name).map Prod.snd

/-- The path in a target that names the host before it, after two slashes. -/
def pathAfterHost? : List Char → Option (List Char)
  | ':' :: '/' :: '/' :: rest =>
    match rest.dropWhile (· ≠ '/') with
    | [] => some ['/']
    | path => some path
  | _ :: rest => pathAfterHost? rest
  | [] => none

/-- The path of the target, without the query and the fragment. -/
def path (request : HttpRequest) : String :=
  match request.target.toList.takeWhile fun c => c ≠ '?' && c ≠ '#' with
  | '/' :: rest => String.ofList ('/' :: rest)
  | cs => String.ofList ((pathAfterHost? cs).getD cs)

end HttpRequest

namespace HttpResponse

/-- The length of a body as a header. -/
def lengthHeader (body : String) : String × String :=
  ("content-length", body.utf8ByteSize.repr)

/-- A response without a body. -/
def bare (status : Nat) : HttpResponse :=
  ⟨status, [lengthHeader ""], ""⟩

/-- A response with a plain text. -/
def plain (status : Nat) (text : String) : HttpResponse :=
  ⟨status, [("content-type", "text/plain; charset=utf-8"), lengthHeader text], text⟩

/-- A response with a JSON value. -/
def json (status : Nat) (value : Json.Value) : HttpResponse :=
  ⟨status, [("content-type", "application/json"), lengthHeader value.compact], value.compact⟩

/-- A response with more headers. -/
def withHeaders (response : HttpResponse) (headers : List (String × String)) : HttpResponse :=
  { response with headers := response.headers ++ headers }

/-- The response without its body, which still tells the length of it. -/
def withoutBody (response : HttpResponse) : HttpResponse :=
  { response with body := "" }

end HttpResponse

/-! ## Errors -/

/-- The kinds of errors that a client can tell apart. -/
inductive ErrorCode
  | invalidExpression
  | evaluation
  | invalidRequest
  | internal
deriving DecidableEq, Repr

namespace ErrorCode

/-- The name of a kind. -/
def name : ErrorCode → String
  | invalidExpression => "INVALID_EXPRESSION"
  | evaluation => "EVALUATION_ERROR"
  | invalidRequest => "INVALID_REQUEST"
  | internal => "INTERNAL_ERROR"

/-- The status of a response about an error of a kind. -/
def status : ErrorCode → Nat
  | invalidExpression => 400
  | evaluation => 400
  | invalidRequest => 422
  | internal => 500

end ErrorCode

/-- The kind of an error. What is not due to the client is not told apart. -/
def Error.code {α : Type} : Error α → ErrorCode
  | .invalidExpression _ => .invalidExpression
  | .evaluation _ _ => .evaluation
  | .invalidRequest _ => .invalidRequest
  | .config _ => .internal
  | .io _ => .internal
  | .server _ => .internal

/-- What a client is told about an error: nothing about errors that it is not the cause of. -/
def Error.publicMessage (e : Error Float) : String :=
  match e.code with
  | .internal => "Internal server error during integration"
  | _ => e.message

/-- The response about an error. -/
def Error.toResponse (e : Error Float) : HttpResponse :=
  .json e.code.status
    (.object [("error", .string e.publicMessage), ("code", .string e.code.name)])

/-! ## Routes -/

/-- The routes. -/
inductive Route
  | health
  | integrate
  | methods
  | socket
deriving DecidableEq, Repr

namespace Route

/-- The route of a path. -/
def ofPath? (path : String) : Option Route :=
  match path with
  | "/health" => some health
  | "/integrate" => some integrate
  | "/methods" => some methods
  | "/ws" => some socket
  | _ => none

/-- The methods that a route takes. -/
def allow : Route → String
  | integrate => "POST"
  | _ => "GET,HEAD"

/-- Whether a route takes a method. -/
def takes (route : Route) (verb : String) : Bool :=
  if route = integrate then verb = "POST" else verb = "GET" || verb = "HEAD"

end Route

/-- The longest accepted body, in bytes. -/
def maxBodyLength : Nat := 2097152

/-- The request for an integral in the body of a request. -/
def HttpRequest.integralRequest (request : HttpRequest) : Except BodyFault (Request Float) :=
  if ¬ (request.header? "content-type").any MediaType.isJson then .error .contentType
  else if maxBodyLength < request.body.utf8ByteSize then .error .tooLarge
  else (Json.requestAtStart request.body).mapError .json

/-- Whether a text contains another one. -/
def containsText (part : List Char) : List Char → Bool
  | [] => part = []
  | c :: cs => part.isPrefixOf (c :: cs) || containsText part cs

/-- The answer to a request for a socket. One that asks as it should is refused as well: there is no
connection here that could turn into a socket. -/
def HttpRequest.refuseSocket (request : HttpRequest) : HttpResponse :=
  let header (name : String) := (request.header? name).map String.toLower
  if request.verb ≠ "GET" then .plain 405 "Request method must be `GET`"
  else if ¬ (header "connection").any (fun v => containsText "upgrade".toList v.toList) then
    .plain 400 "Connection header did not include 'upgrade'"
  else if header "upgrade" ≠ some "websocket" then
    .plain 400 "`Upgrade` header did not include 'websocket'"
  else if header "sec-websocket-version" ≠ some "13" then
    .plain 400 "`Sec-WebSocket-Version` header did not include '13'"
  else if header "sec-websocket-key" = none then
    .plain 400 "`Sec-WebSocket-Key` header missing"
  else .plain 426 "WebSocket request couldn't be upgraded since no upgrade state was present"

namespace Server

/-- The answer to whether the server is well. -/
def health (server : Server) : Json.Value :=
  .object [
    ("status", .string "healthy"),
    ("service", .string serviceName),
    ("version", .string programVersion),
    ("uptime_secs", .natural 0),
    ("connections", .natural server.hub.size)]

/-- The list of methods. -/
def methodsJson : Json.Value :=
  .object [("methods", .array (Method.all.map Method.toJson))]

/-- The answer to a request for an integral. -/
def integrateResponse (entropy : UInt64) (server : Server) (request : HttpRequest) :
    HttpResponse :=
  let outcome := do
    let request ← request.integralRequest.mapError fun fault => Error.invalidRequest (.body fault)
    server.integrate entropy request
  match outcome with
  | .ok result => .json 200 result.toJson
  | .error e => e.toResponse

/-- The answer of a route to a method that it takes. -/
def routeResponse (entropy : UInt64) (server : Server) (request : HttpRequest) :
    Route → HttpResponse
  | .health => .json 200 server.health
  | .methods => .json 200 methodsJson
  | .integrate => server.integrateResponse entropy request
  | .socket => request.refuseSocket

/-- The answer of the routes to a request. -/
def routed (entropy : UInt64) (server : Server) (request : HttpRequest) : HttpResponse :=
  match Route.ofPath? request.path with
  | none => .bare 404
  | some route =>
    if route.takes request.verb then
      let response := server.routeResponse entropy request route
      if request.verb = "HEAD" then response.withoutBody else response
    else (HttpResponse.bare 405).withHeaders [("allow", route.allow)]

end Server

/-! ## Origins -/

/-- Whether a text can be the value of a header: it has no controls other than tabs. -/
def isHeaderValue (text : String) : Bool :=
  text.toList.all fun c => c = '\t' || (32 ≤ c.toNat && c.toNat ≠ 127)

/-- The origins that a server lets in: those of its configuration that can be the value of a header.
An origin that stands for all others is not taken, and the server does not start with one. -/
def allowedOrigins? (origins : List String) : Option (List String) :=
  let legal := origins.filter isHeaderValue
  if legal.contains "*" then none else some legal

/-- The headers that every response has. -/
def originHeaders (allowed : List String) (request : HttpRequest) : List (String × String) :=
  let granted := match request.header? "origin" with
    | some origin =>
      if allowed.contains origin then [("access-control-allow-origin", origin)] else []
    | none => []
  ("vary", "origin, access-control-request-method, access-control-request-headers") :: granted

/-- The answer to a question about what is allowed. -/
def preflight (request : HttpRequest) : HttpResponse :=
  let allow := match Route.ofPath? request.path with
    | some route => [("allow", route.allow)]
    | none => []
  (HttpResponse.bare 200).withHeaders
    ([("access-control-allow-methods", "*"), ("access-control-allow-headers", "*")] ++ allow)

/-- The response of a server that lets some origins in. -/
def Server.respondTo (entropy : UInt64) (server : Server) (allowed : List String)
    (request : HttpRequest) : HttpResponse :=
  let response :=
    if request.verb = "OPTIONS" then preflight request else server.routed entropy request
  response.withHeaders (originHeaders allowed request)

/-- The response of a server, if it could be started. -/
def Server.respond? (entropy : UInt64) (server : Server) (request : HttpRequest) :
    Option HttpResponse :=
  (allowedOrigins? server.origins).map fun allowed => server.respondTo entropy allowed request

end DefiniteIntegral
