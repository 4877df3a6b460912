import DefiniteIntegral.Server.Http
import DefiniteIntegral.Proofs.Server.Delivery
import DefiniteIntegral.Proofs.Server.Request

/-! # Runs of a server

Whatever can happen to a server, one thing after another. Requests that are handled at the same
time, step by step, are in `Workload.Run`. -/

namespace DefiniteIntegral

/-- What can happen to a server. A place is that of a socket among those opened so far. -/
inductive Occurrence
  /-- A request that is answered at once. -/
  | http (entropy : UInt64) (request : HttpRequest)
  | openSocket
  | frame (entropy : UInt64) (place : Nat) (frame : Frame)
  /-- The writer of a socket writes the next message. -/
  | write (place : Nat)
  /-- The writer of a socket finds that it can write no more, and leaves. -/
  | stopWriter (place : Nat)
  /-- The client of a socket reads the next message. -/
  | read (place : Nat)
  /-- The configuration is changed, in whatever entries. -/
  | configure (config : Config)

/-- The configuration that an occurrence sets. -/
def Occurrence.configured? : Occurrence → Option Config
  | configure config => some config
  | _ => none

namespace Server

/-- The server after the writer of the socket at a place has left. -/
def stopWriter (server : Server) (place : Nat) : Server :=
  match server.sessions[place]? with
  | none => server
  | some session => { server with hub := server.hub.dropReader session.queue }

/-- The server after an occurrence. -/
def upon (server : Server) : Occurrence → Server
  | .http _ _ => server
  | .openSocket => server.openSession.2
  | .frame entropy place frame => server.receiveFrame entropy place frame
  | .write place => server.writeNext place
  | .stopWriter place => server.stopWriter place
  | .read place => (server.readWire place).2
  | .configure config => { server with config }

/-- The server after occurrences one after another. -/
def after (server : Server) (occurrences : List Occurrence) : Server :=
  occurrences.foldl upon server

/-- The occurrences of a run, each with the server that it met. -/
def trace (server : Server) : List Occurrence → List (Server × Occurrence)
  | [] => []
  | occurrence :: occurrences =>
    (server, occurrence) :: (server.upon occurrence).trace occurrences

variable {server : Server} {entropy : UInt64} {text : String} {reply : QueueId} {place : Nat}
  {occurrence : Occurrence}

@[simp] theorem after_nil : server.after [] = server := rfl

@[simp] theorem after_cons (occurrences : List Occurrence) :
    server.after (occurrence :: occurrences) = (server.upon occurrence).after occurrences := rfl

@[simp] theorem after_append (earlier later : List Occurrence) :
    server.after (earlier ++ later) = (server.after earlier).after later :=
  List.foldl_append

/-! ## The configuration and the origins -/

/-- What a server goes by: its configuration, and the origins that it started with. -/
def terms (server : Server) : Config × List String :=
  (server.config, server.origins)

theorem terms_handleText : (server.handleText entropy text reply).terms = server.terms := by
  rw [handleText]
  split <;> rfl

theorem terms_receiveFrame {frame : Frame} :
    (server.receiveFrame entropy place frame).terms = server.terms := by
  unfold receiveFrame
  split
  · rfl
  · split
    · rfl
    · cases frame with
      | text text => exact terms_handleText
      | _ => rfl

theorem terms_writeNext : (server.writeNext place).terms = server.terms := by
  unfold writeNext
  split
  · rfl
  · split <;> rfl

theorem terms_stopWriter : (server.stopWriter place).terms = server.terms := by
  unfold stopWriter
  split <;> rfl

theorem terms_readWire : (server.readWire place).2.terms = server.terms := by
  unfold readWire
  split
  · rfl
  · split <;> rfl

/-- Only a change to the configuration changes it, and nothing changes the origins. -/
theorem terms_upon :
    (server.upon occurrence).terms =
      (occurrence.configured?.getD server.config, server.origins) := by
  cases occurrence with
  | http => rfl
  | openSocket => rfl
  | frame entropy place frame => exact terms_receiveFrame
  | write place => exact terms_writeNext
  | stopWriter place => exact terms_stopWriter
  | read place => exact terms_readWire
  | configure config => rfl

theorem upon_config :
    (server.upon occurrence).config = occurrence.configured?.getD server.config :=
  congrArg Prod.fst terms_upon

theorem upon_origins : (server.upon occurrence).origins = server.origins :=
  congrArg Prod.snd terms_upon

/-- The origins are those of the start. -/
theorem after_origins (occurrences : List Occurrence) :
    (server.after occurrences).origins = server.origins := by
  induction occurrences generalizing server with
  | nil => rfl
  | cons occurrence occurrences ih =>
      rw [after_cons, ih, upon_origins]

/-- The configuration after a run is the one that was set last. -/
theorem after_config (occurrences : List Occurrence) :
    (server.after occurrences).config =
      (occurrences.filterMap Occurrence.configured?).getLast?.getD server.config := by
  have hstep : ∀ (server : Server) (occurrence : Occurrence),
      (server.upon occurrence).config = occurrence.configured?.getD server.config :=
    fun _ _ => upon_config
  exact get_foldl hstep server occurrences

/-- An answer depends on the configuration alone. -/
theorem integrateText_congr {other : Server} (h : server.config = other.config) :
    server.integrateText entropy text = other.integrateText entropy text := by
  simp only [integrateText, integrate, randomSource, h]

end Server

end DefiniteIntegral
