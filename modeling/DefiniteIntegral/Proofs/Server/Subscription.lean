import DefiniteIntegral.Proofs.Server.Sockets

/-! # Sockets and their registrations

A socket is registered from when it is opened until its handling ends or an update finds its queue
full or without a writer, and never again. While it is registered it is counted, and it gets every
update. -/

namespace DefiniteIntegral.Server

/-- An update misses the socket at a place: when the sender has its answer, the queue of the socket
is full or without a writer. -/
def Misses (server : Server) (occurrence : Occurrence) (place : Nat) : Prop :=
  ∃ session reply data, server.sessions[place]? = some session ∧
    server.announced? occurrence = some (reply, data) ∧
      ¬ ((server.hub.send reply (.result data)).queues session.queue).accepts

variable {server : Server} {occurrence : Occurrence} {entropy : UInt64} {text : String}
  {place other : Nat} {session : Session} {reply : QueueId} {data : Result Float}

/-! ## One occurrence -/

/-- If there is a socket at the place, then it is handled. -/
def Handles (server : Server) (place : Nat) : Prop :=
  ∀ session : Session, server.sessions[place]? = some session → session.active

/-- If there is a socket at the place, then it is registered. -/
def Registers (server : Server) (place : Nat) : Prop :=
  place < server.sessions.length → (place, place) ∈ server.hub.connections

theorem handles_of_roles {sessions : List Session}
    (hroles : server.sessions.map Session.role = sessions.map Session.role)
    (h : server.Handles place) (hsession : sessions[place]? = some session) : session.active := by
  obtain ⟨later, hlater, hrole⟩ := exists_session_of_role hroles.symm hsession
  rw [← (Session.role_inj.mp hrole).2.2]
  exact h later hlater

theorem not_ends_of_announced (h : server.announced? occurrence = some (reply, data)) :
    ¬ server.Ends occurrence place := by
  intro hends
  rw [hends.announced?_eq_none] at h
  cases h

theorem not_misses_of_announced?_eq_none (h : server.announced? occurrence = none) :
    ¬ server.Misses occurrence place := by
  rintro ⟨_, _, _, -, hannounced, -⟩
  rw [h] at hannounced
  cases hannounced

theorem handles_upon_iff :
    (server.upon occurrence).Handles place ↔
      server.Handles place ∧ ¬ server.Ends occurrence place := by
  cases change_upon server occurrence with
  | opened hopen =>
      subst hopen
      refine ⟨fun h => ⟨?_, not_ends_of_not_frame nofun⟩, fun h session hsession => ?_⟩
      · intro session hsession
        refine h session ?_
        obtain ⟨hlt, -⟩ := List.getElem?_eq_some_iff.mp hsession
        rw [← hsession]
        exact List.getElem?_append_left hlt
      · rcases session_of_openSession hsession with hold | ⟨-, rfl⟩
        · exact h.1 session hold
        · rfl
  | announced hannounced hlater =>
      rw [hlater]
      exact ⟨fun h => ⟨h, not_ends_of_announced hannounced⟩, fun h => h.1⟩
  | closed hends hsession hlater =>
      rename_i closing closed
      rw [hlater]
      rcases eq_or_ne place closing with rfl | hne
      · refine iff_of_false (fun h => ?_) fun h => h.2 hends
        have hlater : (server.closeSession place closed).sessions[place]? =
            some { closed with active := false } := by
          obtain ⟨hlt, -⟩ := List.getElem?_eq_some_iff.mp hsession
          exact List.getElem?_set_self hlt
        cases h _ hlater
      · refine ⟨fun h => ⟨?_, fun hplace => hne (hplace.place_unique hends)⟩, fun h => ?_⟩
        · intro session hsession
          refine h session ?_
          rw [← hsession]
          exact List.getElem?_set_ne hne.symm
        · intro session hsession
          rcases session_of_closeSession hsession with ⟨heq, -⟩ | ⟨-, hold⟩
          · exact absurd heq hne
          · exact h.1 session hold
  | kept _ hends _ _ _ hroles =>
      refine ⟨fun h => ⟨fun session => handles_of_roles hroles h, hends place⟩, fun h => ?_⟩
      exact fun session => handles_of_roles hroles.symm h.1

namespace Numbered

theorem misses_iff (h : server.Numbered)
    (hannounced : server.announced? occurrence = some (reply, data)) :
    server.Misses occurrence place ↔
      place < server.sessions.length ∧
        ¬ ((server.hub.send reply (.result data)).queues place).accepts := by
  constructor
  · rintro ⟨session, _, _, hsession, hother, hmisses⟩
    rw [hannounced] at hother
    cases hother
    obtain ⟨hlt, -⟩ := List.getElem?_eq_some_iff.mp hsession
    rw [(h.numbers place session hsession).2] at hmisses
    exact ⟨hlt, hmisses⟩
  · rintro ⟨hlt, hmisses⟩
    have hsession := List.getElem?_eq_getElem hlt
    refine ⟨_, reply, data, hsession, hannounced, ?_⟩
    rwa [(h.numbers place _ hsession).2]

theorem registers_openSession_iff (h : server.Numbered) :
    server.openSession.2.Registers place ↔ server.Registers place := by
  simp only [Registers, openSession_eq, h.nextConnection, h.nextQueue, List.length_append,
    List.length_singleton, List.mem_append, List.mem_singleton, Prod.mk.injEq, and_self]
  constructor
  · intro hlater hlt
    exact (hlater (by omega)).resolve_right (Nat.ne_of_lt hlt)
  · intro hnow hlt
    rcases Nat.lt_succ_iff_lt_or_eq.mp hlt with hlt | heq
    · exact .inl (hnow hlt)
    · exact .inr heq

theorem registers_closeSession_iff (h : server.Numbered)
    (hsession : server.sessions[place]? = some session) :
    (server.closeSession place session).Registers other ↔
      server.Registers other ∧ other ≠ place := by
  obtain ⟨hlt, -⟩ := List.getElem?_eq_some_iff.mp hsession
  have hlength : (server.closeSession place session).sessions.length = server.sessions.length :=
    List.length_set ..
  simp only [Registers, closeSession_connections, hlength, List.mem_filter,
    (h.numbers place session hsession).1, decide_eq_true_eq]
  constructor
  · intro hlater
    refine ⟨fun hother => (hlater hother).1, ?_⟩
    rintro rfl
    exact (hlater hlt).2 rfl
  · rintro ⟨hnow, hne⟩ hother
    exact ⟨hnow hother, hne⟩

theorem registers_respond_iff (h : server.Numbered) (answer update : Message) :
    ({ server with hub := server.hub.respond reply answer update }).Registers place ↔
      server.Registers place ∧ (place < server.sessions.length →
        ((server.hub.send reply answer).queues place).accepts) := by
  simp only [Registers, Hub.respond, h.separate.send.mem_connections_broadcast,
    Hub.send_connections]
  exact forall_and

theorem registers_upon_iff (h : server.Numbered) :
    (server.upon occurrence).Registers place ↔
      server.Registers place ∧ ¬ server.Ends occurrence place ∧
        ¬ server.Misses occurrence place := by
  cases change_upon server occurrence with
  | opened hopen =>
      subst hopen
      rw [and_iff_left ⟨not_ends_of_not_frame nofun, not_misses_of_announced?_eq_none rfl⟩]
      exact h.registers_openSession_iff
  | announced hannounced hlater =>
      rw [hlater, h.registers_respond_iff, h.misses_iff hannounced,
        and_iff_right (not_ends_of_announced hannounced), not_and, not_not]
  | closed hends hsession hlater =>
      rw [hlater, h.registers_closeSession_iff hsession,
        and_iff_left (not_misses_of_announced?_eq_none hends.announced?_eq_none)]
      refine and_congr_right fun _ => ⟨fun hne hplace => hne (hplace.place_unique hends), ?_⟩
      rintro hnot rfl
      exact hnot hends
  | kept hannounced hends hconnections _ _ hroles =>
      have hlength : (server.upon occurrence).sessions.length = server.sessions.length := by
        simpa using congrArg List.length hroles
      rw [Registers, Registers, hconnections, hlength,
        and_iff_left ⟨hends place, not_misses_of_announced?_eq_none hannounced⟩]

/-- A socket that is registered and not missed gets the update, behind its answer if it is that of
the sender. -/
theorem queues_upon (h : server.Numbered)
    (hannounced : server.announced? occurrence = some (reply, data))
    (hmem : (place, place) ∈ server.hub.connections) (hgot : ¬ server.Misses occurrence place) :
    (server.upon occurrence).hub.queues place =
      ((server.hub.send reply (.result data)).queues place).append (.update data) := by
  have haccepts : ((server.hub.send reply (.result data)).queues place).accepts := by
    rw [h.misses_iff hannounced, not_and, not_not] at hgot
    exact hgot (h.lt_of_mem hmem).2
  cases change_upon server occurrence with
  | opened hopen =>
      subst hopen
      cases hannounced
  | announced hother hlater =>
      obtain ⟨rfl, rfl⟩ := Prod.mk.inj (Option.some.inj (hannounced.symm.trans hother))
      rw [← Hub.send_connections reply (.result data)] at hmem
      rw [hlater]
      exact h.separate.send.queues_broadcast_of_accepts (List.mem_map_of_mem hmem) haccepts
  | closed hends =>
      rw [hends.announced?_eq_none] at hannounced
      cases hannounced
  | kept hnone =>
      rw [hnone] at hannounced
      cases hannounced

/-- Every registered socket is counted once. -/
theorem size_eq (h : server.Numbered) :
    server.hub.size =
      ((List.range server.sessions.length).filter (server.hub.isConnected ·)).length := by
  have hperm : (server.hub.connections.map Prod.fst).Perm
      ((List.range server.sessions.length).filter (server.hub.isConnected ·)) := by
    rw [List.perm_ext_iff_of_nodup h.separate.connections_nodup (List.nodup_range.filter _)]
    intro place
    rw [List.mem_filter, h.isConnected_iff, List.mem_map, List.mem_range]
    constructor
    · rintro ⟨entry, hmem, rfl⟩
      obtain ⟨heq, hlt⟩ := h.lt_of_mem hmem
      exact ⟨hlt, heq ▸ hmem⟩
    · rintro ⟨-, hmem⟩
      exact ⟨(place, place), hmem, rfl⟩
  rw [Hub.size, ← hperm.length_eq, List.length_map]

end Numbered

/-! ## Runs -/

variable {occurrences : List Occurrence}

theorem Numbered.after (h : server.Numbered) (occurrences : List Occurrence) :
    (server.after occurrences).Numbered := by
  induction occurrences generalizing server with
  | nil => exact h
  | cons occurrence occurrences ih => exact ih (h.upon occurrence)

theorem handles_after_iff :
    (server.after occurrences).Handles place ↔
      server.Handles place ∧
        ∀ moment ∈ server.trace occurrences, ¬ moment.1.Ends moment.2 place := by
  induction occurrences generalizing server with
  | nil => simp [Server.after, trace]
  | cons occurrence occurrences ih =>
      rw [trace, List.forall_mem_cons, ← and_assoc, ← handles_upon_iff]
      exact ih

theorem Numbered.registers_after_iff (h : server.Numbered) :
    (server.after occurrences).Registers place ↔
      server.Registers place ∧ ∀ moment ∈ server.trace occurrences,
        ¬ moment.1.Ends moment.2 place ∧ ¬ moment.1.Misses moment.2 place := by
  induction occurrences generalizing server with
  | nil => simp [Server.after, trace]
  | cons occurrence occurrences ih =>
      rw [trace, List.forall_mem_cons, ← and_assoc, ← h.registers_upon_iff]
      exact ih (h.upon occurrence)

theorem Handles.active_iff (hsession : server.sessions[place]? = some session) :
    server.Handles place ↔ session.active := by
  constructor
  · exact fun h => h session hsession
  · intro hactive other hother
    rw [hsession] at hother
    rwa [← Option.some.inj hother]

theorem Numbered.isConnected_iff_registers (h : server.Numbered)
    (hsession : server.sessions[place]? = some session) :
    server.hub.isConnected place ↔ server.Registers place := by
  obtain ⟨hlt, -⟩ := List.getElem?_eq_some_iff.mp hsession
  rw [h.isConnected_iff, Registers]
  exact ⟨fun hmem _ => hmem, fun hmem => hmem hlt⟩

/-- A socket that is no longer handled is never registered again. -/
theorem Numbered.not_isConnected_after (h : server.Numbered)
    (hsession : server.sessions[place]? = some session) (hended : session.active = false)
    (future : List Occurrence) : ¬ (server.after future).hub.isConnected place := by
  intro hconnected
  have hnumbered := h.after future
  have hhandles : (server.after future).Handles place :=
    hnumbered.handled place (hnumbered.isConnected_iff.mp hconnected)
  have hactive := (Handles.active_iff hsession).mp (handles_after_iff.mp hhandles).1
  rw [hended] at hactive
  cases hactive

/-! ## A queue that is full -/

section Full

variable (hsession : server.sessions[place]? = some session) (hactive : session.active = true)
  (hdata : server.integrateText entropy text = .ok data)
include hsession hactive hdata

/-- Requests one after another over a socket that all have the same result. -/
theorem after_replicate_text (n : Nat) :
    server.after (List.replicate n (.frame entropy place (.text text))) =
      { server with
        hub := (fun hub : Hub Message =>
          hub.respond session.queue (.result data) (.update data))^[n] server.hub } := by
  induction n generalizing server with
  | zero => rfl
  | succ n ih =>
      have hstep : server.after (List.replicate (n + 1) (.frame entropy place (.text text))) =
          (server.upon (.frame entropy place (.text text))).after
            (List.replicate n (.frame entropy place (.text text))) := rfl
      rw [hstep, upon_text hsession hactive, handleText_of_ok _ hdata]
      exact ih hsession hdata

/-- A registered socket with room for `n` answers with their updates is full after so many requests
of its own, and the next one ends its registration. -/
theorem after_replicate_text_succ (h : server.Numbered)
    (hmem : (place, place) ∈ server.hub.connections) (hreader : (server.hub.queues place).hasReader)
    {n : Nat} (hroom : (server.hub.queues place).room = 2 * n) {later : Server}
    (hlater : server.after (List.replicate (n + 1) (.frame entropy place (.text text))) = later) :
    later.sessions = server.sessions ∧ ¬ later.hub.isConnected place ∧
      later.hub.queues place =
        { server.hub.queues place with
          messages := (server.hub.queues place).messages ++
            (List.replicate n [Message.result data, .update data]).flatten } := by
  rw [after_replicate_text hsession hactive hdata, (h.numbers place session hsession).2,
    Function.iterate_succ_apply'] at hlater
  obtain ⟨hseparate, hstill, hqueue⟩ := h.separate.iterate_respond (.result data) (.update data)
    hmem hreader n (Nat.le_of_eq hroom.symm)
  generalize (fun hub : Hub Message =>
    hub.respond place (.result data) (.update data))^[n] server.hub = full at *
  have hfull : (full.queues place).room = 0 := by
    have hlength :
        (List.replicate n [Message.result data, .update data]).flatten.length = 2 * n := by
      simp [Nat.mul_comm]
    rw [Queue.room] at hroom
    rw [hqueue, Queue.room, List.length_append, hlength]
    dsimp only
    omega
  obtain ⟨hmissed, hended⟩ := (hseparate.respond_sender (.result data) (.update data) hstill
    (by rw [hqueue]; exact hreader)).2.2 hfull
  rw [← hlater]
  exact ⟨rfl, hended, hmissed.trans hqueue⟩

/-- A request over a socket that is handled and not registered is answered, and nothing more. -/
theorem queues_upon_text (h : server.Numbered) (hnot : ¬ server.hub.isConnected place)
    (haccepts : (server.hub.queues place).accepts) :
    (server.upon (.frame entropy place (.text text))).hub.queues place =
      (server.hub.queues place).append (.result data) := by
  rw [upon_text hsession hactive, handleText_of_ok _ hdata, (h.numbers place session hsession).2]
  dsimp only
  rw [Hub.respond, Hub.queues_broadcast_of_not_accepts, Hub.queues_send_of_accepts haccepts]
  intro hmem
  rw [Hub.send_connections] at hmem
  obtain ⟨entry, hentry, rfl⟩ := List.mem_map.mp hmem
  obtain ⟨heq, -⟩ := h.lt_of_mem hentry
  rw [heq] at hentry hnot
  exact absurd (h.isConnected_iff.mpr hentry) hnot

end Full

/-- The writer of a socket takes the first message from its queue. -/
theorem write_of_message {message : Message} {messages : List Message} {capacity : Nat}
    {owned : Bool} (hsession : server.sessions[place]? = some session)
    (hqueue : server.hub.queues session.queue = ⟨capacity, message :: messages, true, owned⟩) :
    (server.upon (.write place)).sessions =
        server.sessions.set place { session with wire := session.wire ++ [message] } ∧
      (server.upon (.write place)).hub.connections = server.hub.connections ∧
      (server.upon (.write place)).hub.queues session.queue =
        ⟨capacity, messages, true, owned⟩ := by
  have hlater : server.upon (.write place) =
      { server with
        hub :=
          { server.hub with
            queues := server.hub.queues.put session.queue ⟨capacity, messages, true, owned⟩ }
        sessions := server.sessions.set place
          { session with wire := session.wire ++ [message] } } := by
    rw [upon, writeNext, hsession]
    simp only [Hub.receive, hqueue, Bool.not_true, Bool.false_eq_true, ↓reduceIte]
    rfl
  rw [hlater]
  exact ⟨rfl, rfl, Queues.put_self ..⟩

/-- Whatever happens to a server. The handling of a socket goes on until it is ended, and the socket
is registered as long as it is handled and no update has missed it. A registered socket is counted
among the connections, and its queue gets every update that does not miss it, behind the answer if
it is that of the sender. The writer of a socket takes the messages in their order. A socket that is
no longer handled is never registered again. -/
theorem subscribed_while_handled (config : Config) (past : List Occurrence) :
    let server := (start config).after past
    let moments := (start config).trace past
    (∀ place session, server.sessions[place]? = some session →
      session.connection = place ∧ session.queue = place ∧
      (session.active ↔ ∀ moment ∈ moments, ¬ moment.1.Ends moment.2 place) ∧
      (server.hub.isConnected place ↔
        session.active ∧ ∀ moment ∈ moments, ¬ moment.1.Misses moment.2 place) ∧
      (server.hub.isConnected place → ∀ occurrence reply data,
        server.announced? occurrence = some (reply, data) → ¬ server.Misses occurrence place →
          (server.upon occurrence).hub.queues place =
            ((server.hub.send reply (.result data)).queues place).append (.update data)) ∧
      (∀ capacity message messages owned,
        server.hub.queues place = ⟨capacity, message :: messages, true, owned⟩ →
          (server.upon (.write place)).sessions[place]? =
              some { session with wire := session.wire ++ [message] } ∧
            (server.upon (.write place)).hub.queues place = ⟨capacity, messages, true, owned⟩) ∧
      (session.active = false → ∀ future, ¬ (server.after future).hub.isConnected place)) ∧
    ∃ fields, server.health = .object fields ∧
      ("connections", .natural ((List.range server.sessions.length).filter
        (server.hub.isConnected ·)).length) ∈ fields := by
  intro server moments
  have hnumbered : server.Numbered := (Numbered.start config).after past
  constructor
  · intro place session hsession
    obtain ⟨hconnection, hqueue⟩ := hnumbered.numbers place session hsession
    have hactive : session.active ↔ ∀ moment ∈ moments, ¬ moment.1.Ends moment.2 place := by
      rw [← Handles.active_iff hsession, handles_after_iff]
      exact and_iff_right nofun
    refine ⟨hconnection, hqueue, hactive, ?_, ?_, ?_, hnumbered.not_isConnected_after hsession⟩
    · rw [hnumbered.isConnected_iff_registers hsession,
        (Numbered.start config).registers_after_iff, hactive, ← forall₂_and]
      exact and_iff_right nofun
    · intro hconnected occurrence reply data hannounced hgot
      exact hnumbered.queues_upon hannounced (hnumbered.isConnected_iff.mp hconnected) hgot
    · intro capacity message messages owned hmessages
      rw [← hqueue] at hmessages
      obtain ⟨hsessions, -, hrest⟩ := write_of_message hsession hmessages
      obtain ⟨hlt, -⟩ := List.getElem?_eq_some_iff.mp hsession
      rw [hsessions, ← hrest, hqueue]
      exact ⟨List.getElem?_set_self hlt, rfl⟩
  · refine ⟨_, rfl, ?_⟩
    rw [← hnumbered.size_eq]
    simp

/-- A socket whose writer stalls while its client asks seventeen times. The queue is full, an update
misses it, and its registration ends. It is still handled, and when there is room again, its client
gets the answer to a request and no update. -/
theorem handled_not_subscribed :
    let ask : Occurrence := .frame 0 0 (.text "[\"x\", 0, 1, 10, \"trapezoidal\"]")
    let server := (start .standard).after
      (.openSocket :: List.replicate 17 ask ++ [.write 0, .write 0])
    ∃ session data, server.sessions[0]? = some session ∧ session.active ∧
      ¬ server.hub.isConnected session.connection ∧ server.hub.size = 0 ∧
      server.announced? ask = some (session.queue, data) ∧
      2 ≤ (server.hub.queues session.queue).room ∧
      (server.upon ask).hub.queues session.queue =
        (server.hub.queues session.queue).append (.result data) := by
  intro ask server
  obtain ⟨data, hdata⟩ : ∃ data, (start .standard).integrateText 0
      "[\"x\", 0, 1, 10, \"trapezoidal\"]" = .ok data := by
    have hok : ((start .standard).integrateText 0
        "[\"x\", 0, 1, 10, \"trapezoidal\"]").toBool := by decide +kernel
    cases houtcome : (start .standard).integrateText 0 "[\"x\", 0, 1, 10, \"trapezoidal\"]" with
    | ok data => exact ⟨data, rfl⟩
    | error fault => simp [houtcome, Except.toBool] at hok
  have hopened : ((start .standard).upon .openSocket).sessions[0]? = some ⟨0, 0, [], true⟩ := rfl
  have hregistered : (0, 0) ∈ ((start .standard).upon .openSocket).hub.connections := by decide
  have hroom : (((start .standard).upon .openSocket).hub.queues 0).room = 2 * 16 := by decide
  obtain ⟨full, hfull⟩ : ∃ full : Server,
      ((start .standard).upon .openSocket).after (List.replicate 17 ask) = full := ⟨_, rfl⟩
  obtain ⟨hstalled, hended, hqueue⟩ := after_replicate_text_succ hopened rfl hdata
    ((Numbered.start .standard).upon .openSocket) hregistered rfl hroom hfull
  have hnumbered : server.Numbered := (Numbered.start .standard).after _
  have hconfig : server.config = .standard := after_config _
  have hserver : server = (full.upon (.write 0)).upon (.write 0) := by
    rw [← hfull]
    simp only [server, after_append, after_cons, after_nil]
  clear_value server
  have hsession : full.sessions[0]? = some ⟨0, 0, [], true⟩ := by
    rw [hstalled]
    rfl
  obtain ⟨hfirst, hfirstConnections, hfirstQueue⟩ := write_of_message hsession hqueue
  have hsession : (full.upon (.write 0)).sessions[0]? = some ⟨0, 0, [.result data], true⟩ := by
    rw [hfirst, hstalled]
    rfl
  obtain ⟨hsecond, hconnections, hqueue⟩ := write_of_message hsession hfirstQueue
  rw [← hserver] at hsecond hconnections hqueue
  have hdrained : server.sessions = [⟨0, 0, [.result data, .update data], true⟩] := by
    rw [hsecond, hfirst, hstalled]
    rfl
  have hleft : server.hub.queues 0 =
      ⟨32, (List.replicate 15 [Message.result data, .update data]).flatten, true, true⟩ := hqueue
  have hsession : server.sessions[0]? = some ⟨0, 0, [.result data, .update data], true⟩ := by
    rw [hdrained]
    rfl
  have hnot : ¬ server.hub.isConnected 0 := by
    rwa [Hub.isConnected, hconnections, hfirstConnections]
  have hanswer : server.integrateText 0 "[\"x\", 0, 1, 10, \"trapezoidal\"]" = .ok data :=
    (integrateText_congr hconfig).trans hdata
  have hfree : (server.hub.queues 0).room = 2 := by
    rw [hleft]
    rfl
  have haccepts : (server.hub.queues 0).accepts := by
    rw [hleft]
    rfl
  refine ⟨_, data, hsession, rfl, hnot, ?_, announced?_text hsession rfl hanswer,
    Nat.le_of_eq hfree.symm, queues_upon_text hsession rfl hanswer hnumbered hnot haccepts⟩
  rw [hnumbered.size_eq, hdrained]
  simp [hnot]

end Server

end DefiniteIntegral
