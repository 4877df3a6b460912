import DefiniteIntegral.Json.Record
import DefiniteIntegral.Proofs.Json.Numbers
import DefiniteIntegral.Proofs.Json.Strings
import Mathlib.Data.List.DropRight

/-! # Reading what is written

The reader takes every value that is written by the grammar, and it leaves what follows. -/

namespace DefiniteIntegral.Json

/-! ## Spaces -/

section Spaces

variable {gap cs : List Char} {c : Char}

theorem isSpace_iff : isSpace c ↔ c ∈ [' ', '\n', '\t', '\r'] := by
  simp [isSpace, or_assoc]

theorem skipSpace_append (hgap : AreSpaces gap) (cs : List Char) :
    skipSpace (gap ++ cs) = skipSpace cs :=
  List.dropWhile_append_of_pos fun c hc => isSpace_iff.mpr (hgap c hc)

theorem skipSpace_cons (h : isSpace c = false) (cs : List Char) :
    skipSpace (c :: cs) = c :: cs := by
  simp [skipSpace, h]

end Spaces

/-! ## What is read -/

mutual

/-- What is read of a value. -/
def Tree.reading : Tree → Reading
  | .null => .null
  | .bool b => .bool b
  | .number numeral => .number numeral.value?
  | .string text => .string text
  | .array items => .array (readings items) true
  | .object members => .object (memberReadings members) true

/-- What is read of the elements of an array. -/
def readings : List Tree → List Reading
  | [] => []
  | item :: items => item.reading :: readings items

/-- What is read of the members of an object. -/
def memberReadings : List (Option String × Tree) → List (Reading × Reading)
  | [] => []
  | (name, value) :: members => (.string name, value.reading) :: memberReadings members

end

/-! ## Values -/

section Values

variable {fuel : Nat} {cs rest : List Char} {c : Char} {tree : Tree} {n : NumeralText}

theorem readValue_skipSpace (fuel : Nat) (cs : List Char) :
    readValue fuel (skipSpace cs) = readValue fuel cs := by
  cases fuel with
  | zero => rfl
  | succ fuel => rw [readValue, readValue, skipSpace, skipSpace, List.dropWhile_idempotent]

theorem readItems_skipSpace (fuel : Nat) (cs : List Char) :
    readItems fuel (skipSpace cs) = readItems fuel cs := by
  cases fuel with
  | zero => rfl
  | succ fuel => rw [readItems, readItems, readValue_skipSpace]

theorem readValue_append {gap : List Char} (hgap : AreSpaces gap) (fuel : Nat) (cs : List Char) :
    readValue fuel (gap ++ cs) = readValue fuel cs := by
  rw [← readValue_skipSpace, skipSpace_append hgap, readValue_skipSpace]

theorem IsNumeral.exists_cons (h : IsNumeral cs n) :
    ∃ c tail, cs = c :: tail ∧ (c = '-' ∨ c.isDigit) := by
  obtain ⟨hsign, hwhole, hne, -⟩ := h
  obtain ⟨d, ds, rfl⟩ := List.exists_cons_of_ne_nil hne
  simp only [List.mem_cons, List.not_mem_nil, or_false] at hsign
  rcases hsign with rfl | rfl
  · exact ⟨d, _, rfl, .inr (hwhole d List.mem_cons_self)⟩
  · exact ⟨'-', _, rfl, .inl rfl⟩

/-- Only a number begins with a minus sign or a digit. -/
theorem ne_of_beginsNumber {d : Char} (hc : c = '-' ∨ c.isDigit)
    (hd : d ∈ [' ', '\n', '\t', '\r', 'n', 't', 'f', '"', '[', ']', '\x7b']) : c ≠ d := by
  rintro rfl
  have hall : ∀ d ∈ [' ', '\n', '\t', '\r', 'n', 't', 'f', '"', '[', ']', '\x7b'],
      ¬ (d = '-' ∨ d.isDigit) := by simp
  exact hall _ hd hc

theorem isSpace_of_beginsNumber (hc : c = '-' ∨ c.isDigit) : isSpace c = false := by
  rw [← Bool.not_eq_true, isSpace_iff]
  intro hspace
  exact ne_of_beginsNumber hc (by simp at hspace ⊢; tauto) rfl

theorem readValue_number (hc : c = '-' ∨ c.isDigit)
    (h : spanNumeral? (c :: cs) = some (n, rest)) (fuel : Nat) :
    readValue (fuel + 1) (c :: cs) = (.number n.value?, some rest) := by
  have hmark {d : Char} {ds : List Char} (heq : c :: cs = d :: ds) : c = d := (List.cons.inj heq).1
  rw [readValue, skipSpace_cons (isSpace_of_beginsNumber hc)]
  split
  · exact absurd (hmark ‹_›) (ne_of_beginsNumber hc (by decide))
  · exact absurd (hmark ‹_›) (ne_of_beginsNumber hc (by decide))
  · exact absurd (hmark ‹_›) (ne_of_beginsNumber hc (by decide))
  · exact absurd (hmark ‹_›) (ne_of_beginsNumber hc (by decide))
  · exact absurd (hmark ‹_›) (ne_of_beginsNumber hc (by decide))
  · exact absurd (hmark ‹_›) (ne_of_beginsNumber hc (by decide))
  · rw [h]

theorem IsValue.exists_cons (h : IsValue cs tree) :
    ∃ c tail, cs = c :: tail ∧ isSpace c = false ∧ c ≠ ']' := by
  cases h with
  | number h =>
      obtain ⟨c, tail, rfl, hc⟩ := h.exists_cons
      exact ⟨c, tail, rfl, isSpace_of_beginsNumber hc, ne_of_beginsNumber hc (by decide)⟩
  | null | yes | no | string | emptyArray | array | emptyObject | object =>
      exact ⟨_, _, rfl, rfl, by decide⟩

theorem IsValue.skipSpace_append (h : IsValue cs tree) (rest : List Char) :
    skipSpace (cs ++ rest) = cs ++ rest := by
  obtain ⟨c, tail, rfl, hc, -⟩ := h.exists_cons
  exact skipSpace_cons hc _

theorem AreItems.exists_cons {items : List Tree} (h : AreItems cs items) (rest : List Char) :
    ∃ c tail, skipSpace (cs ++ rest) = c :: tail ∧ c ≠ ']' := by
  cases h with
  | last hbefore hitem hafter =>
      obtain ⟨c, tail, rfl, hc, hne⟩ := hitem.exists_cons
      simp only [List.append_assoc, skipSpace_append hbefore]
      exact ⟨c, _, skipSpace_cons hc _, hne⟩
  | cons hbefore hitem hafter hitems =>
      obtain ⟨c, tail, rfl, hc, hne⟩ := hitem.exists_cons
      simp only [List.append_assoc, skipSpace_append hbefore]
      exact ⟨c, _, skipSpace_cons hc _, hne⟩

theorem stops_append {after : List Char} (hafter : AreSpaces after) (h : Stops rest) :
    Stops (after ++ rest) := by
  cases after with
  | nil => exact h
  | cons c after =>
      rintro d ⟨⟩
      have := hafter c List.mem_cons_self
      simp at this ⊢
      tauto

theorem stops_cons (hc : c ∈ [',', ']', '\x7d']) (cs : List Char) : Stops (c :: cs) := by
  rintro d ⟨⟩
  simp at hc ⊢
  tauto

/-- What is read from the end of a member on: the object ends there, or there are others. -/
def readAfter (fuel : Nat) (member : Reading × Reading) (rest : List Char) :
    List (Reading × Reading) × Option (List Char) :=
  match skipSpace rest with
  | '\x7d' :: rest => ([member], some rest)
  | ',' :: rest =>
    match skipSpace rest with
    | '"' :: rest =>
      let (members, rest) := readMembers fuel rest
      (member :: members, rest)
    | _ => ([member], none)
  | _ => ([member], none)

/-- A member is read up to its end, and then the others are. -/
theorem readMembers_member {name : Option String} {key before after : List Char} {value : Reading}
    (hname : IsString key name) (hbefore : AreSpaces before) (hafter : AreSpaces after)
    (hvalue : readValue fuel (cs ++ rest) = (value, some rest)) :
    readMembers (fuel + 1) (key ++ '"' :: (before ++ ':' :: (after ++ (cs ++ rest)))) =
      readAfter fuel (.string name, value) rest := by
  obtain ⟨units, hread, htext⟩ :=
    hname.exists_readUnits (before ++ ':' :: (after ++ (cs ++ rest)))
  have hcolon : skipSpace (':' :: (after ++ (cs ++ rest))) = ':' :: (after ++ (cs ++ rest)) :=
    skipSpace_cons rfl _
  rw [readMembers, hread]
  simp only [skipSpace_append hbefore, hcolon, readValue_append hafter, hvalue, htext]
  rfl

end Values

mutual

theorem IsValue.readValue_append {cs rest : List Char} {tree : Tree} (h : IsValue cs tree)
    (hrest : Stops rest) (fuel : Nat) (hfuel : 2 * cs.length ≤ fuel) :
    readValue fuel (cs ++ rest) = (tree.reading, some rest) := by
  obtain ⟨fuel, rfl⟩ : ∃ k, fuel = k + 1 := by
    obtain ⟨c, tail, rfl, -⟩ := h.exists_cons
    exact ⟨fuel - 1, by simp only [List.length_cons] at hfuel; omega⟩
  cases h with
  | null => rfl
  | yes => rfl
  | no => rfl
  | number h =>
      have hspan := h.spanNumeral?_append hrest
      obtain ⟨c, tail, rfl, hc⟩ := h.exists_cons
      exact readValue_number hc hspan fuel
  | string h =>
      obtain ⟨units, hread, htext⟩ := h.exists_readUnits rest
      simp only [List.cons_append, List.append_assoc, List.nil_append]
      rw [readValue, skipSpace_cons rfl]
      simp only [hread, htext]
      rfl
  | @emptyArray gap hgap =>
      simp only [List.cons_append, List.append_assoc, List.nil_append]
      rw [readValue, skipSpace_cons rfl]
      simp only [skipSpace_append hgap, skipSpace_cons (c := ']') rfl]
      rfl
  | @array items cs h =>
      have hitems := AreItems.readItems_append h fuel
        (by simp only [List.length_cons, List.length_append] at hfuel; omega) rest
      obtain ⟨c, tail, htail, hc⟩ := h.exists_cons (']' :: rest)
      rw [← readItems_skipSpace, htail] at hitems
      simp only [List.cons_append, List.append_assoc, List.nil_append]
      rw [readValue, skipSpace_cons rfl]
      simp only [htail]
      split
      · exact absurd (List.cons.inj ‹_›).1 hc
      · simp only [hitems]
        rfl
  | @emptyObject gap hgap =>
      simp only [List.cons_append, List.append_assoc, List.nil_append]
      rw [readValue, skipSpace_cons rfl]
      simp only [skipSpace_append hgap, skipSpace_cons (c := '\x7d') rfl]
      rfl
  | @object members cs h =>
      obtain ⟨tail, htail, hmembers⟩ := AreMembers.readMembers_append h fuel
        (by simp only [List.length_cons, List.length_append] at hfuel; omega) rest
      simp only [List.cons_append, List.append_assoc, List.nil_append]
      rw [readValue, skipSpace_cons rfl]
      simp only [htail, hmembers]
      rfl

theorem AreItems.readItems_append {cs : List Char} {items : List Tree} (h : AreItems cs items)
    (fuel : Nat) (hfuel : 2 * cs.length < fuel) (rest : List Char) :
    readItems fuel (cs ++ ']' :: rest) = (readings items, some rest) := by
  obtain ⟨fuel, rfl⟩ : ∃ k, fuel = k + 1 := ⟨fuel - 1, by omega⟩
  cases h with
  | @last item before cs after hbefore hitem hafter =>
      have hread := IsValue.readValue_append hitem
        (stops_append hafter (stops_cons (c := ']') (by decide) rest)) fuel
        (by simp only [List.length_append] at hfuel; omega)
      simp only [List.append_assoc]
      rw [readItems, readValue_append hbefore, hread]
      simp only [skipSpace_append hafter, skipSpace_cons (c := ']') rfl]
      rfl
  | @cons item items before cs after tail hbefore hitem hafter hitems =>
      simp only [List.length_append, List.length_cons] at hfuel
      have hread := IsValue.readValue_append hitem
        (stops_append hafter (stops_cons (c := ',') (by decide) (tail ++ ']' :: rest)))
        fuel (by omega)
      have hlater := AreItems.readItems_append hitems fuel (by omega) rest
      obtain ⟨c, later, htail, hc⟩ := hitems.exists_cons (']' :: rest)
      rw [← readItems_skipSpace, htail] at hlater
      simp only [List.append_assoc, List.cons_append]
      rw [readItems, readValue_append hbefore, hread]
      simp only [skipSpace_append hafter, skipSpace_cons (c := ',') rfl, htail]
      split
      · exact absurd (List.cons.inj ‹_›).1 hc
      · simp only [hlater]
        rfl

theorem AreMembers.readMembers_append {cs : List Char} {members : List (Option String × Tree)}
    (h : AreMembers cs members) (fuel : Nat) (hfuel : 2 * cs.length < fuel) (rest : List Char) :
    ∃ tail, skipSpace (cs ++ '\x7d' :: rest) = '"' :: tail ∧
      readMembers fuel tail = (memberReadings members, some rest) := by
  obtain ⟨fuel, rfl⟩ : ∃ k, fuel = k + 1 := ⟨fuel - 1, by omega⟩
  cases h with
  | last hbefore hmember hafter =>
      cases hmember with
      | intro hname hcolon hgap hvalue =>
          simp only [List.length_append, List.length_cons] at hfuel
          have hread := IsValue.readValue_append hvalue
            (stops_append hafter (stops_cons (c := '\x7d') (by decide) rest)) fuel
            (by omega)
          simp only [List.append_assoc, List.cons_append, skipSpace_append hbefore]
          refine ⟨_, skipSpace_cons rfl _, ?_⟩
          rw [readMembers_member hname hcolon hgap hread, readAfter]
          simp only [skipSpace_append hafter, skipSpace_cons (c := '\x7d') rfl]
          rfl
  | @cons member members before cs after tail hbefore hmember hafter hmembers =>
      cases hmember with
      | intro hname hcolon hgap hvalue =>
          simp only [List.length_append, List.length_cons] at hfuel
          have hread := IsValue.readValue_append hvalue
            (stops_append hafter (stops_cons (c := ',') (by decide) (tail ++ '\x7d' :: rest)))
            fuel (by omega)
          obtain ⟨later, htail, hlater⟩ :=
            AreMembers.readMembers_append hmembers fuel (by omega) rest
          simp only [List.append_assoc, List.cons_append, skipSpace_append hbefore]
          refine ⟨_, skipSpace_cons rfl _, ?_⟩
          rw [readMembers_member hname hcolon hgap hread, readAfter]
          simp only [skipSpace_append hafter, skipSpace_cons (c := ',') rfl, htail, hlater]
          rfl

end

/-- A text that holds a value is read to its end. -/
theorem IsText.read_eq {text : String} {tree : Tree} (h : IsText text tree) :
    ∃ rest, read text = (tree.reading, some rest) ∧ skipSpace rest = [] := by
  obtain ⟨hbefore, hvalue, hafter, htext⟩ := h
  rename_i before cs after
  refine ⟨after, ?_, ?_⟩
  · have hlength : text.toList.length = before.length + (cs.length + after.length) := by
      rw [htext, List.length_append, List.length_append]
    have hstops : Stops after := by
      rw [← List.append_nil after]
      exact stops_append hafter nofun
    rw [read, hlength, htext, readValue_append hbefore]
    exact hvalue.readValue_append hstops _ (by omega)
  · rw [← List.append_nil after]
    exact skipSpace_append hafter []

/-- A text is decoded by the value that it holds, however it is written. -/
theorem IsText.ofText_eq {β : Type} {text : String} {tree : Tree} (h : IsText text tree)
    (decode : Reading → Except Fault β) : ofText decode text = decode tree.reading := by
  obtain ⟨rest, hread, hrest⟩ := h.read_eq
  rw [ofText, hread]
  simp only [Option.map_some, hrest]
  cases decode tree.reading <;> rfl

end DefiniteIntegral.Json
