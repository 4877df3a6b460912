import DefiniteIntegral.Proofs.Server.Entrances
import DefiniteIntegral.Proofs.Server.Running

/-! # Answers and the past

What a server answers depends on its configuration alone, and not on what has happened to it before:
with a seeded source on the seed, and for the methods on a grid on nothing. -/

namespace DefiniteIntegral

namespace Server

/-! ## Servers that answer alike -/

/-- Two servers answer alike what is asked for: a request, the body of a request over HTTP, and a
text over a socket whose queue has room. -/
structure AnswerAlike (server other : Server) (asked : Request Float → Prop) : Prop where
  request : ∀ first second request, asked request →
    server.integrate first request = other.integrate second request
  http : ∀ first second (http : HttpRequest),
    (∀ request, http.integralRequest = .ok request → asked request) →
      server.integrateResponse first http = other.integrateResponse second http
  socket : ∀ first second text reply reply',
    (∀ request, Json.requestOfText text = .ok request → asked request) →
      (server.hub.queues reply).accepts → (other.hub.queues reply').accepts →
        server.replyTo first text reply = other.replyTo second text reply'

variable {server other : Server} {asked : Request Float → Prop}

theorem AnswerAlike.of_request
    (h : ∀ first second request, asked request →
      server.integrate first request = other.integrate second request) :
    server.AnswerAlike other asked where
  request := h
  http := by
    intro first second http hasked
    cases hbody : http.integralRequest with
    | error fault =>
        rw [integrateResponse_of_unreadable hbody, integrateResponse_of_unreadable hbody]
    | ok request =>
        have hanswer := h first second request (hasked request hbody)
        cases houtcome : other.integrate second request with
        | ok result =>
            rw [integrateResponse_of_ok hbody (hanswer.trans houtcome),
              integrateResponse_of_ok hbody houtcome]
        | error e =>
            rw [integrateResponse_of_error hbody (hanswer.trans houtcome),
              integrateResponse_of_error hbody houtcome]
  socket := by
    intro first second text reply reply' hasked haccepts haccepts'
    have hanswer : server.integrateText first text = other.integrateText second text := by
      cases hread : Json.requestOfText text with
      | error fault => rw [integrateText, integrateText, hread]; rfl
      | ok request =>
          rw [integrateText_of_requestOfText hread, integrateText_of_requestOfText hread]
          exact h first second request (hasked request hread)
    cases houtcome : other.integrateText second text with
    | ok data =>
        rw [replyTo_of_ok haccepts (hanswer.trans houtcome), replyTo_of_ok haccepts' houtcome]
    | error e =>
        rw [replyTo_of_error haccepts (hanswer.trans houtcome), replyTo_of_error haccepts' houtcome]

theorem answerAlike_of_seeded (hsource : server.config.source = "seeded")
    (hother : other.config.source = "seeded") (hseed : server.config.seed = other.config.seed) :
    server.AnswerAlike other fun _ => True := by
  refine .of_request fun first second request _ => ?_
  rw [integrate_of_seeded hsource, integrate_of_seeded hother, hseed]

theorem answerAlike_of_grid
    (hsource : server.config.source = "pseudo" ∨ server.config.source = "seeded")
    (hother : other.config.source = "pseudo" ∨ other.config.source = "seeded") :
    server.AnswerAlike other fun request => request.method ≠ .monteCarlo := by
  refine .of_request fun first second request hgrid => ?_
  obtain ⟨source, hsource⟩ : ∃ source, server.randomSource first = .ok source :=
    exists_randomSource hsource
  obtain ⟨source', hsource'⟩ : ∃ source, other.randomSource second = .ok source :=
    exists_randomSource hother
  have hcompute : source.compute request = source'.compute request :=
    Request.run_compute_supply hgrid Source.draw source Source.draw source'
  rw [integrate, integrate, hsource, hsource', ok_bind, ok_bind, hcompute]

/-- Two servers after any runs. Their configurations are those that were set last. With seeded
sources of one seed they answer alike whatever is asked for, and with sources of whatever kinds and
seeds they answer alike what is asked for by a method on a grid. Nothing but a change to the
configuration changes it. -/
theorem answerAlike_after (config otherConfig : Config) (past otherPast : List Occurrence) :
    let server := (start config).after past
    let other := (start otherConfig).after otherPast
    server.config = (past.filterMap Occurrence.configured?).getLast?.getD config ∧
    (server.config.source = "seeded" → other.config.source = "seeded" →
      server.config.seed = other.config.seed → server.AnswerAlike other fun _ => True) ∧
    ((server.config.source = "pseudo" ∨ server.config.source = "seeded") →
      (other.config.source = "pseudo" ∨ other.config.source = "seeded") →
        server.AnswerAlike other fun request => request.method ≠ .monteCarlo) ∧
    ∀ occurrence : Occurrence, (∀ config, occurrence ≠ .configure config) →
      (server.upon occurrence).config = server.config := by
  intro server other
  refine ⟨after_config past, answerAlike_of_seeded, answerAlike_of_grid, ?_⟩
  intro occurrence hother
  rw [upon_config]
  cases occurrence with
  | configure config => exact absurd rfl (hother config)
  | _ => rfl

end Server

end DefiniteIntegral
