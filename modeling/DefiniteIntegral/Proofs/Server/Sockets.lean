import DefiniteIntegral.Proofs.Server.Running

/-! # Sockets

What an occurrence can do to the sockets of a server and to their registrations. The sockets are
numbered by their places, and so are their registrations and their queues. -/

namespace DefiniteIntegral

/-- What is fixed about a socket while it is handled: its registration, its queue, and that it is
handled. -/
def Session.role (session : Session) : ConnectionId × QueueId × Bool :=
  (session.connection, session.queue, session.active)

theorem Session.role_inj {session other : Session} :
    session.role = other.role ↔
      session.connection = other.connection ∧ session.queue = other.queue ∧
        session.active = other.active := by
  simp [role]

namespace Server

/-! ## Announcements and ends -/

/-- What an occurrence announces to everybody: the result of a request over a socket, after the
answer to the queue of its sender. -/
def announced? (server : Server) : Occurrence → Option (QueueId × Result Float)
  | .frame entropy place (.text text) =>
    match server.sessions[place]? with
    | some session =>
      if session.active then (server.integrateText entropy text).toOption.map (session.queue, ·)
      else none
    | none => none
  | _ => none

/-- The handling of the socket at a place ends. -/
def Ends (server : Server) (occurrence : Occurrence) (place : Nat) : Prop :=
  ∃ entropy frame session, occurrence = .frame entropy place frame ∧
    (frame = .close ∨ frame = .failure) ∧ server.sessions[place]? = some session ∧ session.active

variable {server : Server} {occurrence : Occurrence} {entropy : UInt64} {frame : Frame}
  {text : String} {place other : Nat} {session later : Session}

/-- An occurrence ends the handling of one socket at most. -/
theorem Ends.place_unique (h : server.Ends occurrence place)
    (hother : server.Ends occurrence other) : place = other := by
  obtain ⟨_, _, _, rfl, -⟩ := h
  obtain ⟨_, _, _, heq, -⟩ := hother
  cases heq
  rfl

theorem Ends.announced?_eq_none (h : server.Ends occurrence place) :
    server.announced? occurrence = none := by
  obtain ⟨_, _, _, rfl, rfl | rfl, -⟩ := h <;> rfl

/-! ## What an occurrence does -/

/-- What an occurrence can do to the sockets and their registrations: open a socket, make an
announcement, end the handling of a socket, or leave them as they are. -/
inductive Change (server : Server) (occurrence : Occurrence) : Prop
  | opened (h : occurrence = .openSocket)
  | announced {reply : QueueId} {data : Result Float}
      (h : server.announced? occurrence = some (reply, data))
      (hlater : server.upon occurrence =
        { server with hub := server.hub.respond reply (.result data) (.update data) })
  | closed {place : Nat} {session : Session} (h : server.Ends occurrence place)
      (hsession : server.sessions[place]? = some session)
      (hlater : server.upon occurrence = server.closeSession place session)
  | kept (hannounced : server.announced? occurrence = none)
      (hends : ∀ place, ¬ server.Ends occurrence place)
      (hconnections : (server.upon occurrence).hub.connections = server.hub.connections)
      (hnextQueue : (server.upon occurrence).hub.nextQueue = server.hub.nextQueue)
      (hnextConnection :
        (server.upon occurrence).hub.nextConnection = server.hub.nextConnection)
      (hroles : (server.upon occurrence).sessions.map Session.role =
        server.sessions.map Session.role)

/-- An occurrence that does nothing but send to one queue. -/
theorem Change.of_send {message : Message} (hannounced : server.announced? occurrence = none)
    (hends : ∀ place, ¬ server.Ends occurrence place)
    (hlater : server.upon occurrence = { server with hub := server.hub.send reply message }) :
    server.Change occurrence := by
  rw [Hub.send_eq] at hlater
  exact .kept hannounced hends (by rw [hlater]) (by rw [hlater]) (by rw [hlater]) (by rw [hlater])

/-- An occurrence that does nothing to a server. -/
theorem Change.of_eq (hannounced : server.announced? occurrence = none)
    (hends : ∀ place, ¬ server.Ends occurrence place) (hlater : server.upon occurrence = server) :
    server.Change occurrence :=
  .kept hannounced hends (by rw [hlater]) (by rw [hlater]) (by rw [hlater]) (by rw [hlater])

theorem not_ends_of_not_frame
    (h : ∀ entropy place frame, occurrence ≠ .frame entropy place frame) :
    ¬ server.Ends occurrence other := by
  rintro ⟨entropy, frame, _, heq, -⟩
  exact h entropy other frame heq

theorem not_ends_of_frame (h : frame ≠ .close) (h' : frame ≠ .failure) (other : Nat) :
    ¬ server.Ends (.frame entropy place frame) other := by
  rintro ⟨_, _, _, heq, hframe, -⟩
  obtain ⟨-, -, rfl⟩ := Occurrence.frame.inj heq
  exact hframe.elim h h'

/-! ### Frames -/

section Frames

variable (hsession : server.sessions[place]? = some session) (hactive : session.active = true)
include hsession hactive

theorem announced?_text (hdata : server.integrateText entropy text = .ok data) :
    server.announced? (.frame entropy place (.text text)) = some (session.queue, data) := by
  simp only [announced?, hsession, hactive, ↓reduceIte, hdata]
  rfl

theorem upon_frame (entropy : UInt64) (frame : Frame) :
    server.upon (.frame entropy place frame) =
      match frame with
      | .text text => server.handleText entropy text session.queue
      | .binary =>
        { server with
          hub := server.hub.send session.queue (.error "Binary messages are not supported") }
      | .control => server
      | .close => server.closeSession place session
      | .failure => server.closeSession place session := by
  cases frame with
  | _ =>
      simp only [upon, receiveFrame, hsession, hactive, Bool.not_true, Bool.false_eq_true,
        ↓reduceIte]

theorem upon_text (entropy : UInt64) (text : String) :
    server.upon (.frame entropy place (.text text)) =
      server.handleText entropy text session.queue :=
  upon_frame hsession hactive entropy (.text text)

theorem change_text (entropy : UInt64) (text : String) :
    server.Change (.frame entropy place (.text text)) := by
  have hlater := upon_text hsession hactive entropy text
  cases hanswer : server.integrateText entropy text with
  | ok data =>
      rw [handleText_of_ok _ hanswer] at hlater
      exact .announced (announced?_text hsession hactive hanswer) hlater
  | error e =>
      have hannounced : server.announced? (.frame entropy place (.text text)) = none := by
        simp only [announced?, hsession, hactive, ↓reduceIte, hanswer]
        rfl
      rw [handleText_of_error _ hanswer] at hlater
      exact .of_send hannounced (not_ends_of_frame nofun nofun) hlater

theorem change_binary (entropy : UInt64) : server.Change (.frame entropy place .binary) :=
  .of_send rfl (not_ends_of_frame nofun nofun) (upon_frame hsession hactive entropy .binary)

theorem change_control (entropy : UInt64) : server.Change (.frame entropy place .control) :=
  .of_eq rfl (not_ends_of_frame nofun nofun) (upon_frame hsession hactive entropy .control)

theorem change_closing (entropy : UInt64) (hframe : frame = .close ∨ frame = .failure) :
    server.Change (.frame entropy place frame) := by
  have hlater := upon_frame hsession hactive entropy frame
  refine .closed ⟨entropy, frame, session, rfl, hframe, hsession, hactive⟩ hsession ?_
  rcases hframe with rfl | rfl
  · exact hlater
  · exact hlater

end Frames

/-- A frame from a socket that is not handled does nothing. -/
theorem change_unhandled
    (h : ∀ session, server.sessions[place]? = some session → session.active = false)
    (entropy : UInt64) (frame : Frame) : server.Change (.frame entropy place frame) := by
  have hends : ∀ other, ¬ server.Ends (.frame entropy place frame) other := by
    rintro other ⟨_, _, session, heq, -, hsession, hactive⟩
    obtain ⟨-, rfl, -⟩ := Occurrence.frame.inj heq
    rw [h session hsession] at hactive
    cases hactive
  cases hsession : server.sessions[place]? with
  | none =>
      refine .of_eq ?_ hends (by simp only [upon, receiveFrame, hsession])
      cases frame <;> simp [announced?, hsession]
  | some session =>
      have hinactive := h session hsession
      refine .of_eq ?_ hends ?_
      · cases frame <;> simp [announced?, hsession, hinactive]
      · simp only [upon, receiveFrame, hsession, hinactive, Bool.not_false, ↓reduceIte]

/-! ### Writers and readers -/

theorem map_role_set {sessions : List Session} (hsession : sessions[place]? = some session)
    (later : Session) (hrole : later.role = session.role) :
    (sessions.set place later).map Session.role = sessions.map Session.role := by
  obtain ⟨hlt, rfl⟩ := List.getElem?_eq_some_iff.mp hsession
  have hlt' : place < (sessions.map Session.role).length := by rwa [List.length_map]
  rw [List.map_set, hrole, ← List.getElem_map Session.role (h := hlt'), List.set_getElem_self]

theorem change_write (place : Nat) : server.Change (.write place) := by
  have hends : ∀ other, ¬ server.Ends (.write place) other :=
    fun _ => not_ends_of_not_frame nofun
  cases hsession : server.sessions[place]? with
  | none => exact .of_eq rfl hends (by simp only [upon, writeNext, hsession])
  | some session =>
      have hlater : server.upon (.write place) = server.writeNext place := rfl
      rw [writeNext, hsession] at hlater
      dsimp only at hlater
      have hreceive : (server.hub.receive session.queue).2 = _ := Hub.receive_eq
      split at hlater
      · rename_i message hub hreceived
        rw [hreceived] at hreceive
        dsimp only at hreceive
        have hroles :=
          map_role_set hsession { session with wire := session.wire ++ [message] } rfl
        exact .kept rfl hends (by rw [hlater, hreceive]; rfl) (by rw [hlater, hreceive]; rfl)
          (by rw [hlater, hreceive]; rfl) (by rw [hlater]; exact hroles)
      · exact .of_eq rfl hends hlater

theorem change_stopWriter (place : Nat) : server.Change (.stopWriter place) := by
  have hends : ∀ other, ¬ server.Ends (.stopWriter place) other :=
    fun _ => not_ends_of_not_frame nofun
  have hlater : server.upon (.stopWriter place) = server.stopWriter place := rfl
  rw [stopWriter] at hlater
  split at hlater
  · exact .of_eq rfl hends hlater
  · exact .kept rfl hends (by rw [hlater]; rfl) (by rw [hlater]; rfl) (by rw [hlater]; rfl)
      (by rw [hlater])

theorem change_read (place : Nat) : server.Change (.read place) := by
  have hends : ∀ other, ¬ server.Ends (.read place) other :=
    fun _ => not_ends_of_not_frame nofun
  have hlater : server.upon (.read place) = (server.readWire place).2 := rfl
  rw [readWire] at hlater
  split at hlater
  · exact .of_eq rfl hends hlater
  · rename_i session hsession
    split at hlater
    · exact .of_eq rfl hends hlater
    · rename_i message wire hwire
      have hroles := map_role_set hsession { session with wire } rfl
      exact .kept rfl hends (by rw [hlater]; rfl) (by rw [hlater]; rfl) (by rw [hlater]; rfl)
        (by rw [hlater]; exact hroles)

theorem change_upon (server : Server) (occurrence : Occurrence) : server.Change occurrence := by
  cases occurrence with
  | http entropy request => exact .of_eq rfl (fun _ => not_ends_of_not_frame nofun) rfl
  | openSocket => exact .opened rfl
  | frame entropy place frame =>
      by_cases hhandled : ∃ session, server.sessions[place]? = some session ∧ session.active
      · obtain ⟨session, hsession, hactive⟩ := hhandled
        cases frame with
        | text text => exact change_text hsession hactive entropy text
        | binary => exact change_binary hsession hactive entropy
        | control => exact change_control hsession hactive entropy
        | close => exact change_closing hsession hactive entropy (.inl rfl)
        | failure => exact change_closing hsession hactive entropy (.inr rfl)
      · refine change_unhandled ?_ entropy frame
        intro session hsession
        by_contra hactive
        exact hhandled ⟨session, hsession, by simpa using hactive⟩
  | write place => exact change_write place
  | stopWriter place => exact change_stopWriter place
  | read place => exact change_read place
  | configure config => exact .kept rfl (fun _ => not_ends_of_not_frame nofun) rfl rfl rfl rfl

/-! ## Numbers -/

/-- The sockets are numbered by their places, and so are their registrations and queues. Who is
registered is handled. -/
structure Numbered (server : Server) : Prop where
  numbers : ∀ place (session : Session), server.sessions[place]? = some session →
    session.connection = place ∧ session.queue = place
  nextQueue : server.hub.nextQueue = server.sessions.length
  nextConnection : server.hub.nextConnection = server.sessions.length
  connections : server.hub.connections.Sublist
    ((List.range server.sessions.length).map fun place => (place, place))
  handled : ∀ place : Nat, (place, place) ∈ server.hub.connections →
    ∀ session : Session, server.sessions[place]? = some session → session.active

/-! ### The sockets after an occurrence -/

theorem exists_session_of_role {sessions later : List Session}
    (hroles : later.map Session.role = sessions.map Session.role)
    (hsession : later[place]? = some session) :
    ∃ former, sessions[place]? = some former ∧ former.role = session.role := by
  have hrole : (sessions.map Session.role)[place]? = some session.role := by
    rw [← hroles, List.getElem?_map, hsession]
    rfl
  rw [List.getElem?_map] at hrole
  exact Option.map_eq_some_iff.mp hrole

theorem openSession_eq (server : Server) :
    server.openSession.2 =
      { server with
        hub :=
          { queues := server.hub.queues.put server.hub.nextQueue (.ofCapacity socketCapacity)
            connections :=
              server.hub.connections ++ [(server.hub.nextConnection, server.hub.nextQueue)]
            nextQueue := server.hub.nextQueue + 1
            nextConnection := server.hub.nextConnection + 1 }
        sessions :=
          server.sessions ++ [⟨server.hub.nextConnection, server.hub.nextQueue, [], true⟩] } := rfl

/-- A socket after the last one has been opened is an earlier one or that. -/
theorem session_of_openSession (h : server.openSession.2.sessions[place]? = some session) :
    server.sessions[place]? = some session ∨
      place = server.sessions.length ∧
        session = ⟨server.hub.nextConnection, server.hub.nextQueue, [], true⟩ := by
  rw [openSession_eq] at h
  dsimp only at h
  rcases Nat.lt_or_ge place server.sessions.length with hlt | hle
  · rw [List.getElem?_append_left hlt] at h
    exact .inl h
  · rw [List.getElem?_append_right hle, List.getElem?_singleton] at h
    split at h
    · exact .inr ⟨by omega, (Option.some.inj h).symm⟩
    · cases h

theorem closeSession_connections (server : Server) (place : Nat) (session : Session) :
    (server.closeSession place session).hub.connections =
      server.hub.connections.filter fun entry => entry.1 ≠ session.connection := rfl

/-- A socket after the handling of one has ended is that one, or it has not changed. -/
theorem session_of_closeSession
    (h : (server.closeSession place session).sessions[other]? = some later) :
    other = place ∧ later = { session with active := false } ∨
      other ≠ place ∧ server.sessions[other]? = some later := by
  have hset : (server.sessions.set place { session with active := false })[other]? = some later := h
  rw [List.getElem?_set] at hset
  split at hset
  · rename_i heq
    split at hset
    · exact .inl ⟨heq.symm, (Option.some.inj hset).symm⟩
    · cases hset
  · rename_i hne
    exact .inr ⟨fun heq => hne heq.symm, hset⟩

namespace Numbered

theorem start (config : Config) : (start config).Numbered where
  numbers := nofun
  nextQueue := rfl
  nextConnection := rfl
  connections := .slnil
  handled := nofun

theorem separate (h : server.Numbered) : server.hub.Separate where
  connections_nodup := by
    refine (h.connections.map Prod.fst).nodup ?_
    simpa [Function.comp_def] using List.nodup_range
  queues_nodup := by
    refine (h.connections.map Prod.snd).nodup ?_
    simpa [Function.comp_def] using List.nodup_range

theorem lt_of_mem (h : server.Numbered) {entry : ConnectionId × QueueId}
    (hmem : entry ∈ server.hub.connections) :
    entry = (entry.1, entry.1) ∧ entry.1 < server.sessions.length := by
  obtain ⟨place, hplace, rfl⟩ := List.mem_map.mp (h.connections.subset hmem)
  exact ⟨rfl, List.mem_range.mp hplace⟩

theorem isConnected_iff (h : server.Numbered) :
    server.hub.isConnected place ↔ (place, place) ∈ server.hub.connections := by
  rw [Hub.isConnected_iff]
  constructor
  · rintro ⟨queue, hmem⟩
    obtain ⟨heq, -⟩ := h.lt_of_mem hmem
    rwa [heq] at hmem
  · exact fun hmem => ⟨place, hmem⟩

theorem openSession (h : server.Numbered) : server.openSession.2.Numbered where
  numbers := by
    intro place session hsession
    rcases session_of_openSession hsession with hold | ⟨rfl, rfl⟩
    · exact h.numbers place session hold
    · exact ⟨h.nextConnection, h.nextQueue⟩
  nextQueue := by simp [openSession_eq, h.nextQueue]
  nextConnection := by simp [openSession_eq, h.nextConnection]
  connections := by
    simpa [openSession_eq, h.nextConnection, h.nextQueue, List.range_succ] using h.connections
  handled := by
    intro place hmem session hsession
    rcases session_of_openSession hsession with hold | ⟨rfl, rfl⟩
    · rw [openSession_eq] at hmem
      rcases List.mem_append.mp hmem with hmem | hnew
      · exact h.handled place hmem session hold
      · obtain ⟨hlt, -⟩ := List.getElem?_eq_some_iff.mp hold
        have hplace : place = server.sessions.length := by
          rw [← h.nextConnection]
          exact congrArg Prod.fst (List.mem_singleton.mp hnew)
        exact absurd hplace (Nat.ne_of_lt hlt)
    · rfl

theorem respond (h : server.Numbered) (reply : QueueId) (answer update : Message) :
    ({ server with hub := server.hub.respond reply answer update }).Numbered where
  numbers := h.numbers
  nextQueue := by
    rw [← h.nextQueue, Hub.respond]
    simp [Hub.broadcast, Hub.send_eq]
  nextConnection := by
    rw [← h.nextConnection, Hub.respond]
    simp [Hub.broadcast, Hub.send_eq]
  connections := Hub.connections_respond_sublist.trans h.connections
  handled place hmem := h.handled place (Hub.connections_respond_sublist.subset hmem)

theorem closeSession (h : server.Numbered) (hsession : server.sessions[place]? = some session) :
    (server.closeSession place session).Numbered where
  numbers := by
    intro other later hlater
    rcases session_of_closeSession hlater with ⟨rfl, rfl⟩ | ⟨-, hlater⟩
    · exact h.numbers other session hsession
    · exact h.numbers other later hlater
  nextQueue := h.nextQueue.trans (List.length_set ..).symm
  nextConnection := h.nextConnection.trans (List.length_set ..).symm
  connections := by
    have hlength : (server.closeSession place session).sessions.length = server.sessions.length :=
      List.length_set ..
    rw [hlength]
    exact List.filter_sublist.trans h.connections
  handled := by
    intro other hmem later hlater
    rw [closeSession_connections] at hmem
    obtain ⟨hmem, hne⟩ := List.mem_filter.mp hmem
    rcases session_of_closeSession hlater with ⟨rfl, rfl⟩ | ⟨-, hlater⟩
    · simp [(h.numbers other session hsession).1] at hne
    · exact h.handled other hmem later hlater

theorem upon (h : server.Numbered) (occurrence : Occurrence) :
    (server.upon occurrence).Numbered := by
  cases change_upon server occurrence with
  | opened hopen =>
      subst hopen
      exact h.openSession
  | announced hannounced hlater =>
      rw [hlater]
      exact h.respond _ _ _
  | closed hends hsession hlater =>
      rw [hlater]
      exact h.closeSession hsession
  | kept hannounced hends hconnections hnextQueue hnextConnection hroles =>
      have hlength : (server.upon occurrence).sessions.length = server.sessions.length := by
        simpa using congrArg List.length hroles
      constructor
      · intro place session hsession
        obtain ⟨former, hformer, hrole⟩ := exists_session_of_role hroles hsession
        obtain ⟨hconnection, hqueue, -⟩ := Session.role_inj.mp hrole
        rw [← hconnection, ← hqueue]
        exact h.numbers place former hformer
      · rw [hnextQueue, hlength, h.nextQueue]
      · rw [hnextConnection, hlength, h.nextConnection]
      · rw [hconnections, hlength]
        exact h.connections
      · intro place hmem session hsession
        obtain ⟨former, hformer, hrole⟩ := exists_session_of_role hroles hsession
        rw [← (Session.role_inj.mp hrole).2.2]
        rw [hconnections] at hmem
        exact h.handled place hmem former hformer

end Numbered

end Server

end DefiniteIntegral
