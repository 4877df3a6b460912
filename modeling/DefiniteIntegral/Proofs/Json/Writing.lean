import DefiniteIntegral.Json.Record
import DefiniteIntegral.Proofs.Json.Reading
import DefiniteIntegral.Proofs.Number.Notation

/-! # Written values

What is written for a value is JSON, whatever numbers and texts it holds, in the compact form and in
the one with line breaks. What is read of it does not depend on the form. -/

namespace DefiniteIntegral.Json

/-! ## Numbers -/

section Numbers

variable {x : Float} {w : List Char} {n : Numeral} {text : String} {tree : Tree}

theorem areSpaces_nil : AreSpaces [] :=
  nofun

theorem isText_of_isValue (h : IsValue text.toList tree) : IsText text tree :=
  .intro areSpaces_nil h areSpaces_nil (by simp)

/-- A decimal is a JSON number, with a minus sign or without. -/
theorem isNumeral_of_isDecimal {sign : List Char} (hsign : sign ∈ [[], ['-']]) (h : IsDecimal w n) :
    IsNumeral (sign ++ w) ⟨sign = ['-'], n.whole, n.fraction, n.exponent⟩ := by
  obtain ⟨hwhole, hne, hzero, hfraction, hpoint, hexponent⟩ := h
  exact .intro hsign hwhole hne hzero hfraction hpoint hexponent

theorem write_of_not_isFinite (h : ¬ x.isFinite) : Layout.json.write x = "null" := by
  rw [Layout.write, Layout.withSign]
  by_cases hnan : x.isNaN
  · exact if_pos hnan
  · have hinf : x.isInf := by
      rw [isFinite_iff, not_and, Bool.not_eq_false] at h
      exact h (Bool.not_eq_true _ ▸ hnan)
    rw [if_neg hnan, if_pos hinf]
    exact ite_self _

/-- A floating-point number is written as a JSON number, or as `null` if it is not finite. -/
theorem exists_isValue_real (x : Float) : ∃ tree, IsValue (Layout.json.write x).toList tree := by
  by_cases hx : x.isFinite
  · obtain ⟨cs, n, -, htext, hn, -⟩ := exists_isDecimal_write Layout.readable_json hx
    rw [htext]
    exact ⟨_, .number (isNumeral_of_isDecimal (by split_ifs <;> decide) hn)⟩
  · rw [write_of_not_isFinite hx]
    exact ⟨.null, .null⟩

theorem isValue_natural (n : ℕ) :
    IsValue n.repr.toList (.number ⟨false, Nat.toDigits 10 n, [], none⟩) := by
  have hnumeral : IsNumeral ([] ++ (Nat.toDigits 10 n ++ ([] ++ [])))
      ⟨decide ([] = ['-']), Nat.toDigits 10 n, [], none⟩ :=
    .intro (by decide) Toml.isDigit_of_mem_toDigits Nat.toDigits_ne_nil head?_toDigits .absent
      nofun .absent
  rw [Nat.toList_repr]
  simpa using IsValue.number hnumeral

end Numbers

/-! ## What is read of a value -/

mutual

/-- What is read of the text of a value. -/
def Value.reading : Value → Reading
  | .null => .null
  | .bool b => .bool b
  | .natural n => (read n.repr).1
  | .real x => (read (Layout.json.write x)).1
  | .string text => .string (some text)
  | .array items => .array (valueReadings items) true
  | .object members => .object (fieldReadings members) true

/-- What is read of the elements of an array. -/
def valueReadings : List Value → List Reading
  | [] => []
  | item :: items => item.reading :: valueReadings items

/-- What is read of the members of an object. -/
def fieldReadings : List (String × Value) → List (Reading × Reading)
  | [] => []
  | (name, value) :: members => (.string (some name), value.reading) :: fieldReadings members

end

/-- A form that puts nothing but spaces between the parts of a value. -/
structure Form.IsSpaced (form : Form) : Prop where
  colon : ∃ gap, AreSpaces gap ∧ form.colon.toList = ':' :: gap
  lineBreak : ∀ depth, AreSpaces (form.lineBreak depth).toList

theorem Form.isSpaced_compact : Form.compact.IsSpaced where
  colon := ⟨[], nofun, rfl⟩
  lineBreak _ := nofun

theorem Form.isSpaced_pretty : Form.pretty.IsSpaced where
  colon := ⟨[' '], by simp [AreSpaces], rfl⟩
  lineBreak depth := by
    intro c hc
    rw [pretty, String.toList_append, toList_pushn, List.mem_append] at hc
    rcases hc with hc | hc
    · simp at hc
      simp [hc]
    · rw [List.eq_of_mem_replicate hc]
      decide

/-! ## Values -/

section Values

variable {form : Form} {gap after cs : List Char}

theorem toList_bracketed_nil {left right : String} {depth : Nat} :
    (bracketed form depth left right []).toList = left.toList ++ right.toList :=
  String.toList_append

theorem toList_bracketed_cons {left right : String} {depth : Nat} {text : String}
    {texts : List String} :
    (bracketed form depth left right (text :: texts)).toList =
      left.toList ++ ((form.lineBreak (depth + 1)).toList ++
        (',' :: (form.lineBreak (depth + 1)).toList).intercalate
          ((text :: texts).map String.toList) ++ (form.lineBreak depth).toList) ++
        right.toList := by
  simp [bracketed, String.toList_intercalate]

/-- What stands between the brackets of an array: spaces before every element and after the last. -/
theorem areItems_intercalate (hgap : AreSpaces gap) (hafter : AreSpaces after)
    {texts : List (List Char)} {trees : List Tree} (h : List.Forall₂ IsValue texts trees)
    (hne : texts ≠ []) : AreItems (gap ++ (',' :: gap).intercalate texts ++ after) trees := by
  induction h with
  | nil => exact absurd rfl hne
  | @cons text tree texts trees hvalue hvalues ih =>
      cases hvalues with
      | nil =>
          have hlast := AreItems.last hgap hvalue hafter
          simpa using hlast
      | cons hnext hlater =>
          have hitems := AreItems.cons hgap hvalue areSpaces_nil (ih (List.cons_ne_nil _ _))
          rw [List.intercalate_cons_cons]
          simpa using hitems

/-- What stands between the braces of an object: spaces before every member and after the last. -/
theorem areMembers_intercalate (hgap : AreSpaces gap) (hafter : AreSpaces after)
    {texts : List (List Char)} {trees : List (Option String × Tree)}
    (h : List.Forall₂ IsMember texts trees) (hne : texts ≠ []) :
    AreMembers (gap ++ (',' :: gap).intercalate texts ++ after) trees := by
  induction h with
  | nil => exact absurd rfl hne
  | @cons text tree texts trees hmember hmembers ih =>
      cases hmembers with
      | nil =>
          have hlast := AreMembers.last hgap hmember hafter
          simpa using hlast
      | cons hnext hlater =>
          have hitems := AreMembers.cons hgap hmember areSpaces_nil
            (ih (List.cons_ne_nil _ _))
          rw [List.intercalate_cons_cons]
          simpa using hitems

theorem isMember_append (hform : form.IsSpaced) (name : String) {tree : Tree}
    (h : IsValue cs tree) :
    IsMember ((quote name ++ form.colon).toList ++ cs) (some name, tree) := by
  obtain ⟨gap, hgap, hcolon⟩ := hform.colon
  have hmember := IsMember.intro (isString_escape name) areSpaces_nil hgap h
  rw [String.toList_append, toList_quote, hcolon]
  simpa using hmember

/-- What is read of a text that holds a value alone. -/
theorem IsValue.read_eq {text : String} {tree : Tree} (h : IsValue text.toList tree) :
    (read text).1 = tree.reading := by
  obtain ⟨rest, hread, -⟩ := (isText_of_isValue h).read_eq
  rw [hread]

end Values

mutual

/-- A value is written as JSON from which the value is read, in any form and at any depth. -/
theorem Value.exists_isValue_write (form : Form) (hform : form.IsSpaced) (v : Value) (depth : Nat) :
    ∃ tree, IsValue (write form depth v).toList tree ∧ tree.reading = v.reading := by
  cases v with
  | null =>
      rw [write]
      exact ⟨.null, .null, rfl⟩
  | bool b =>
      rw [write]
      cases b with
      | true => exact ⟨.bool true, .yes, rfl⟩
      | false => exact ⟨.bool false, .no, rfl⟩
  | natural n => exact ⟨_, isValue_natural n, (isValue_natural n).read_eq.symm⟩
  | real x =>
      obtain ⟨tree, htree⟩ := exists_isValue_real x
      exact ⟨tree, htree, htree.read_eq.symm⟩
  | string text =>
      refine ⟨.string (some text), ?_, rfl⟩
      rw [write, toList_quote]
      exact .string (isString_escape text)
  | array items =>
      obtain ⟨trees, htrees, hreadings⟩ :=
        exists_forall₂_writeItems form hform items (depth + 1)
      refine ⟨.array trees, ?_, congrArg (Reading.array · true) hreadings⟩
      rw [write]
      -- An empty array has no line breaks between its brackets.
      cases hitems : writeItems form (depth + 1) items with
      | nil =>
          rw [hitems] at htrees
          cases htrees
          rw [toList_bracketed_nil]
          exact .emptyArray areSpaces_nil
      | cons text texts =>
          rw [hitems] at htrees
          rw [toList_bracketed_cons]
          exact .array (areItems_intercalate (hform.lineBreak _) (hform.lineBreak _) htrees
            (List.cons_ne_nil _ _))
  | object members =>
      obtain ⟨trees, htrees, hreadings⟩ :=
        exists_forall₂_writeMembers form hform members (depth + 1)
      refine ⟨.object trees, ?_, congrArg (Reading.object · true) hreadings⟩
      rw [write]
      cases hmembers : writeMembers form (depth + 1) members with
      | nil =>
          rw [hmembers] at htrees
          cases htrees
          rw [toList_bracketed_nil]
          exact .emptyObject areSpaces_nil
      | cons text texts =>
          rw [hmembers] at htrees
          rw [toList_bracketed_cons]
          exact .object (areMembers_intercalate (hform.lineBreak _) (hform.lineBreak _) htrees
            (List.cons_ne_nil _ _))

theorem exists_forall₂_writeItems (form : Form) (hform : form.IsSpaced) (items : List Value)
    (depth : Nat) :
    ∃ trees, List.Forall₂ IsValue ((writeItems form depth items).map String.toList) trees ∧
      readings trees = valueReadings items := by
  cases items with
  | nil => exact ⟨[], .nil, rfl⟩
  | cons item items =>
      obtain ⟨tree, htree, hreading⟩ := Value.exists_isValue_write form hform item depth
      obtain ⟨trees, htrees, hreadings⟩ := exists_forall₂_writeItems form hform items depth
      exact ⟨tree :: trees, .cons htree htrees, by
        rw [readings, valueReadings, hreading, hreadings]⟩

theorem exists_forall₂_writeMembers (form : Form) (hform : form.IsSpaced)
    (members : List (String × Value)) (depth : Nat) :
    ∃ trees, List.Forall₂ IsMember ((writeMembers form depth members).map String.toList) trees ∧
      memberReadings trees = fieldReadings members := by
  cases members with
  | nil => exact ⟨[], .nil, rfl⟩
  | cons member members =>
      obtain ⟨name, value⟩ := member
      obtain ⟨tree, htree, hreading⟩ := Value.exists_isValue_write form hform value depth
      obtain ⟨trees, htrees, hreadings⟩ := exists_forall₂_writeMembers form hform members depth
      refine ⟨(some name, tree) :: trees, ?_, by
        rw [memberReadings, fieldReadings, hreading, hreadings]⟩
      rw [writeMembers, List.map_cons, String.toList_append]
      exact .cons (isMember_append hform name htree) htrees

end

/-! ## Texts -/

section Texts

variable {form : Form}

/-- A written value is a JSON text. -/
theorem Value.exists_isText_write (hform : form.IsSpaced) (v : Value) :
    ∃ tree, IsText (write form 0 v) tree := by
  obtain ⟨tree, htree, -⟩ := v.exists_isValue_write form hform 0
  exact ⟨tree, isText_of_isValue htree⟩

/-- A written value is decoded as what is read of it. -/
theorem Value.ofText_write {β : Type} (hform : form.IsSpaced) (decode : Reading → Except Fault β)
    (v : Value) : ofText decode (write form 0 v) = decode v.reading := by
  obtain ⟨tree, htree, hreading⟩ := v.exists_isValue_write form hform 0
  rw [(isText_of_isValue htree).ofText_eq, hreading]

end Texts

end DefiniteIntegral.Json
