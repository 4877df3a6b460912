import DefiniteIntegral.Output.Format
import DefiniteIntegral.Proofs.Json.Results
import DefiniteIntegral.Server.Http
import DefiniteIntegral.Server.MessageText

/-! # Messages as JSON texts

What is written for a result, to a file or over HTTP, and for a message over a socket is JSON, and
its reader gets what was written: any numbers that are read back one by one, and any text. -/

namespace DefiniteIntegral

open Json

/-! ## Complete values -/

section Whole

variable {r : Result Float} {xs : List Float}

theorem Json.isWhole_of_toFloat {value : Reading} {path : List Json.Step} {x : Float}
    (h : value.toFloat path = .ok x) : value.isWhole := by
  unfold Reading.toFloat at h
  split at h
  · rfl
  · rfl
  · rfl
  · cases h

theorem Json.areWhole_numbers (h : ∀ x ∈ xs, Survives x) :
    areWhole (valueReadings (xs.map .real)) := by
  induction xs with
  | nil => rfl
  | cons x xs ih =>
      obtain ⟨hx, hxs⟩ := List.forall_mem_cons.mp h
      rw [List.map_cons, valueReadings, areWhole, isWhole_of_toFloat (hx.toFloat_eq []), ih hxs]
      rfl

theorem Json.isWhole_numbers (h : ∀ x ∈ xs, Survives x) : (numbers xs).reading.isWhole := by
  rw [numbers, Value.reading, Reading.isWhole, areWhole_numbers h]
  rfl

theorem Json.isWhole_optional {estimate : Option Float} (h : ∀ x ∈ estimate, Survives x) :
    (Json.optional estimate).reading.isWhole := by
  cases estimate with
  | none => rfl
  | some x => exact isWhole_of_toFloat ((h x rfl).toFloat_eq [])

theorem Result.Survives.isWhole (h : r.Survives) : r.toJson.reading.isWhole := by
  have hmethod : (Value.string r.method.name).reading.isWhole := rfl
  have hpoints : (Value.natural r.points).reading.isWhole := by
    rw [reading_natural h.points]
    rfl
  simp [Result.reading_toJson, Reading.isWhole, membersAreWhole, hmethod, hpoints,
    isWhole_of_toFloat (h.value.toFloat_eq []), isWhole_numbers h.xs, isWhole_numbers h.ys,
    isWhole_optional h.errorEstimate]

end Whole

/-! ## Messages -/

namespace Message

/-- Whether the numbers of a message, if it has some, are read back from their JSON texts. -/
def Survives : Message → Prop
  | .result data => data.Survives
  | .update data => data.Survives
  | .error _ => True

variable {message : Message}

theorem kindOf_name (kind : Kind) (path : List Json.Step) :
    kindOf path (.string (some kind.name)) = .ok kind := by
  cases kind <;> rfl

theorem onlyField_singleton {β : Type} {decode : Reading → Except Fault β} {name : String}
    {value : Reading} {b : β} (h : decode value = .ok b) :
    onlyField name decode [(.string (some name), value)] = .ok b := by
  simp [onlyField, readFields, freshField_none name h, requireField]

/-- A type and one other member are taken as a message of the type. -/
theorem ofReading_object (kind : Kind) {name : String} (hname : name ≠ "type") {value : Reading}
    (hwhole : value.isWhole) :
    ofReading (.object [(.string (some "type"), .string (some kind.name)),
        (.string (some name), value)] true) =
      ofMembers kind [(.string (some name), value)] := by
  simp [ofReading, readFields, Draft.addMember, hname, hwhole,
    freshField_none "type" (kindOf_name kind [Json.Step.name "type"]), requireField]

theorem Survives.ofReading_eq (h : message.Survives) :
    ofReading message.toJson.reading = .ok message := by
  cases message with
  | result data =>
      refine (ofReading_object .result (by decide) (Result.Survives.isWhole h)).trans ?_
      rw [ofMembers, onlyField_singleton (Result.Survives.toResult_eq h)]
      rfl
  | update data =>
      refine (ofReading_object .update (by decide) (Result.Survives.isWhole h)).trans ?_
      rw [ofMembers, onlyField_singleton (Result.Survives.toResult_eq h)]
      rfl
  | error text =>
      have hwhole : (Reading.string (some text)).isWhole := rfl
      refine (ofReading_object .error (by decide) hwhole).trans ?_
      rw [ofMembers, onlyField_singleton (b := text) rfl]
      rfl

end Message

/-- Results and messages are written as JSON texts, and these texts are decoded as what was written:
a result to a file and over HTTP if its numbers are read back one by one, a message over a socket if
the numbers in it are, and any message about an error. -/
theorem written_texts_decode :
    (∀ (request : Request Float) (r : Result Float), r.Survives →
      (∃ tree, IsText (OutputFormat.json.write request r) tree) ∧
      resultOfText (OutputFormat.json.write request r) = .ok r ∧
      (∃ tree, IsText (HttpResponse.json 200 r.toJson).body tree) ∧
      resultOfText (HttpResponse.json 200 r.toJson).body = .ok r) ∧
    ∀ message : Message, message.Survives →
      (∃ tree, IsText message.text tree) ∧ Message.ofText message.text = .ok message := by
  refine ⟨fun request r h => ⟨?_, ?_, ?_, ?_⟩, fun message h => ⟨?_, ?_⟩⟩
  · exact r.toJson.exists_isText_write Form.isSpaced_pretty
  · exact (r.toJson.ofText_write Form.isSpaced_pretty _).trans h.toResult_eq
  · exact r.toJson.exists_isText_write Form.isSpaced_compact
  · exact (r.toJson.ofText_write Form.isSpaced_compact _).trans h.toResult_eq
  · exact message.toJson.exists_isText_write Form.isSpaced_compact
  · exact (message.toJson.ofText_write Form.isSpaced_compact _).trans h.ofReading_eq

/-- Numbers in three notations, no error estimate, and a text with quotes and a control
character. -/
theorem written_texts_decode_notations :
    let r : Result Float := ⟨0.375, .monteCarlo, 10, [-0.0, 0.5], [1e16, 1e-7], none⟩
    let message : Message := .error "at \"x\u0000\": \\ ≠ /"
    r.Survives ∧ resultOfText r.toJson.pretty = .ok r ∧
      Message.ofText (Message.update r).text = .ok (.update r) ∧
      Message.ofText message.text = .ok message := by
  intro r message
  have hsurvives : r.Survives := by
    refine ⟨by decide, toOption_eq_some_iff.mp (by decide +kernel), ?_, ?_, nofun⟩
    · intro x hx
      obtain rfl | rfl : x = -0.0 ∨ x = 0.5 := by simpa [r] using hx
      · exact toOption_eq_some_iff.mp (by decide +kernel)
      · exact toOption_eq_some_iff.mp (by decide +kernel)
    · intro y hy
      obtain rfl | rfl : y = 1e16 ∨ y = 1e-7 := by simpa [r] using hy
      · exact toOption_eq_some_iff.mp (by decide +kernel)
      · exact toOption_eq_some_iff.mp (by decide +kernel)
  obtain ⟨hresults, hmessages⟩ := written_texts_decode
  exact ⟨hsurvives, (hresults ⟨"x", 0, 1, 10, .monteCarlo⟩ r hsurvives).2.1,
    (hmessages (.update r) hsurvives).2, (hmessages message trivial).2⟩

end DefiniteIntegral
