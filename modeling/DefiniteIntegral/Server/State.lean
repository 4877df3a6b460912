import DefiniteIntegral.Config.Settings
import DefiniteIntegral.Json.RequestText
import DefiniteIntegral.Random.Source
import DefiniteIntegral.Server.Hub
import DefiniteIntegral.Server.Message

/-! The state of a server: its configuration, which can change while it runs, the origins that it
started with, its queues, and the sockets that it serves.

What a server does about a frame is one step here, the broadcast of an update and the end of the
registrations that could not take it included. `Task` has these as steps that others can come in
between of. -/

namespace DefiniteIntegral

/-- A socket with the task that handles what the client sends and the one that writes to it. -/
structure Session where
  connection : ConnectionId
  queue : QueueId
  /-- The messages that have been written and that the client has not read. -/
  wire : List Message
  /-- Whether the socket is still handled. -/
  active : Bool
deriving Repr

/-- A server. -/
structure Server where
  config : Config
  origins : List String
  hub : Hub Message
  sessions : List Session

/-- How many messages can wait for the writer of a socket. -/
def socketCapacity : Nat := 32

/-- What a client sends over a socket. -/
inductive Frame
  | text (text : String)
  | binary
  /-- A frame that needs no answer from here. -/
  | control
  | close
  /-- No frame: the socket broke. -/
  | failure
deriving DecidableEq, Repr

namespace Server

/-- A server that starts with a configuration. -/
def start (config : Config) : Server :=
  ⟨config, config.origins, .empty, []⟩

/-- The random source of a request. -/
def randomSource (entropy : UInt64) (server : Server) : Except (Error Float) Source :=
  Source.ofName entropy server.config.source server.config.seed

/-- The answer to a request. -/
def integrate (entropy : UInt64) (server : Server) (request : Request Float) :
    Except (Error Float) (Result Float) := do
  request.validate
  let source ← server.randomSource entropy
  source.compute request

/-- The answer to the text of a request. -/
def integrateText (entropy : UInt64) (server : Server) (text : String) :
    Except (Error Float) (Result Float) := do
  let request ← (Json.requestOfText text).mapError fun fault => .invalidRequest (.json fault)
  server.integrate entropy request

/-- The server after a request from the client of a queue. The client gets the result, and then
everybody an update; of a fault only the client hears. -/
def handleText (entropy : UInt64) (server : Server) (text : String) (reply : QueueId) : Server :=
  match server.integrateText entropy text with
  | .ok data =>
    let hub := server.hub.send reply (.result data)
    { server with hub := (hub.broadcast (.update data)).2 }
  | .error e => { server with hub := server.hub.send reply (.error e.message) }

/-- The server with one entry of its configuration changed. -/
def configure (server : Server) (key value : String) : Except ConfigFault Server :=
  (server.config.setNamed key value).map fun config => { server with config }

/-! ## Sockets -/

/-- The server with a new socket, and its place. -/
def openSession (server : Server) : Nat × Server :=
  let (queue, hub) := server.hub.openQueue socketCapacity
  let (connection, hub) := hub.connect queue
  (server.sessions.length,
    { server with hub, sessions := server.sessions ++ [⟨connection, queue, [], true⟩] })

/-- The server after a change to the socket at a place. -/
def updateSession (server : Server) (place : Nat) (session : Session) : Server :=
  { server with sessions := server.sessions.set place session }

/-- The server after the handling of a socket has ended: its registration is gone, and what has not
been written is lost. -/
def closeSession (server : Server) (place : Nat) (session : Session) : Server :=
  let hub := ((server.hub.disconnect session.connection).dropReader session.queue).dropOwner
    session.queue
  ({ server with hub }).updateSession place { session with active := false }

/-- The server after a frame from the socket at a place. -/
def receiveFrame (entropy : UInt64) (server : Server) (place : Nat) (frame : Frame) : Server :=
  match server.sessions[place]? with
  | none => server
  | some session =>
    if !session.active then server
    else match frame with
      | .text text => server.handleText entropy text session.queue
      | .binary =>
        { server with
          hub := server.hub.send session.queue (.error "Binary messages are not supported") }
      | .control => server
      | .close => server.closeSession place session
      | .failure => server.closeSession place session

/-- The server after the writer of the socket at a place has written the next message. -/
def writeNext (server : Server) (place : Nat) : Server :=
  match server.sessions[place]? with
  | none => server
  | some session =>
    match server.hub.receive session.queue with
    | (some (.message message), hub) =>
      ({ server with hub }).updateSession place { session with wire := session.wire ++ [message] }
    | _ => server

/-- The server after the writer of the socket at a place has written all that waits for it. -/
def writeAll (server : Server) (place : Nat) : Server :=
  match server.sessions[place]? with
  | none => server
  | some session =>
    (List.range (server.hub.queues session.queue).messages.length).foldl
      (fun server _ => server.writeNext place) server

/-- The server after all writers have written all that waits for them. -/
def settle (server : Server) : Server :=
  (List.range server.sessions.length).foldl writeAll server

/-- The next message that the client of the socket at a place reads. -/
def readWire (server : Server) (place : Nat) : Option Message × Server :=
  match server.sessions[place]? with
  | none => (none, server)
  | some session =>
    match session.wire with
    | [] => (none, server)
    | message :: wire => (some message, server.updateSession place { session with wire })

end Server

end DefiniteIntegral
