import DefiniteIntegral.Proofs.Toml.Quotes
import DefiniteIntegral.Proofs.Toml.Words

/-! # Keys and values

The readers take every key and every value that is written by the grammar, and they leave what
follows. -/

namespace DefiniteIntegral.Toml

/-! ## Keys -/

section Keys

variable {cs rest : List Char} {c : Char} {name : String} {names : List String} {key : Key}

theorem isContent_of_isBareCharacter (h : isBareCharacter c) : IsContent c := by
  refine ⟨?_, ?_, ?_, ?_, ?_⟩ <;> (rintro rfl; exact absurd h (by decide))

/-- What follows a key: blanks, and then an equals sign or the end of a header. -/
def EndsKey (cs : List Char) : Prop :=
  ∃ mark later, skipSpace cs = mark :: later ∧ mark ∈ ['=', ']']

theorem endsKey_append {blanks : List Char} (h : AreBlanks blanks) {mark : Char}
    (hmark : mark ∈ ['=', ']']) (cs : List Char) : EndsKey (blanks ++ mark :: cs) := by
  refine ⟨mark, cs, ?_, hmark⟩
  rw [skipSpace_append h, skipSpace_cons]
  simp only [List.mem_cons, List.not_mem_nil, or_false] at hmark
  rcases hmark with rfl | rfl <;> rfl

/-- A bare name ends at a blank, and where a key ends. -/
theorem isBareCharacter_of_skipSpace {mark : Char} {later : List Char}
    (h : skipSpace cs = mark :: later) (hmark : isBareCharacter mark = false) :
    ∀ c ∈ cs.head?, isBareCharacter c = false := by
  intro c hc
  obtain ⟨tail, rfl⟩ := List.head?_eq_some_iff.mp hc
  by_cases hspace : isSpace c
  · simp only [isSpace_iff, List.mem_cons, List.not_mem_nil, or_false] at hspace
    rcases hspace with rfl | rfl <;> rfl
  · rw [skipSpace_cons (by simpa using hspace)] at h
    rwa [(List.cons.inj h).1]

theorem IsName.readName_append (h : IsName cs name)
    (hrest : ∀ c ∈ rest.head?, isBareCharacter c = false) :
    readName (cs ++ rest) = some (name, rest) := by
  cases h with
  | quoted h => exact h.readName_append rest
  | bare h hne =>
      have hspan := takeWhile_dropWhile_append h hrest
      obtain ⟨c, tail, rfl⟩ := List.exists_cons_of_ne_nil hne
      have hc := h c List.mem_cons_self
      rw [readName, hspan.1, hspan.2, if_neg hne]
      · rintro later heq
        obtain ⟨rfl, -⟩ := List.cons.inj heq
        cases hc
      · rintro later heq
        obtain ⟨rfl, -⟩ := List.cons.inj heq
        cases hc

theorem IsName.exists_cons (h : IsName cs name) :
    ∃ c tail, cs = c :: tail ∧ IsContent c ∧ c ∉ ['[', '\x7d', '\uFEFF'] := by
  cases h with
  | quoted h => cases h <;> exact ⟨_, _, rfl, by simp [IsContent], by decide⟩
  | bare h hne =>
      obtain ⟨c, tail, rfl⟩ := List.exists_cons_of_ne_nil hne
      have hc := h c List.mem_cons_self
      refine ⟨c, tail, rfl, isContent_of_isBareCharacter hc, fun hmark => ?_⟩
      simp only [List.mem_cons, List.not_mem_nil, or_false] at hmark
      rcases hmark with rfl | rfl | rfl <;> cases hc

theorem IsName.skipSpace_append (h : IsName cs name) (rest : List Char) :
    skipSpace (cs ++ rest) = cs ++ rest := by
  obtain ⟨c, tail, rfl, hc, -⟩ := h.exists_cons
  exact skipSpace_cons_of_isContent hc _

theorem readNames_append {blanks : List Char} (h : AreBlanks blanks) (most : ℕ) (cs : List Char) :
    readNames most (blanks ++ cs) = readNames most cs := by
  cases most with
  | zero => rfl
  | succ most => rw [readNames, readNames, skipSpace_append h]

/-- Names with dots between them are read, up to the mark after them. -/
theorem AreNames.readNames_append (h : AreNames cs names) (hrest : EndsKey rest) {most : ℕ}
    (hmost : names.length ≤ most) :
    readNames most (cs ++ rest) = some (names, skipSpace rest) := by
  induction h generalizing most with
  | last h =>
      obtain ⟨most, rfl⟩ : ∃ m, most = m + 1 := ⟨most - 1, by simp at hmost; omega⟩
      obtain ⟨mark, later, hskip, hmark⟩ := hrest
      have hbare : isBareCharacter mark = false := by
        simp only [List.mem_cons, List.not_mem_nil, or_false] at hmark
        rcases hmark with rfl | rfl <;> rfl
      have hname := h.readName_append (isBareCharacter_of_skipSpace hskip hbare)
      rw [readNames, h.skipSpace_append, hname]
      simp only [Option.bind_eq_bind, Option.bind_some, hskip]
      simp only [List.mem_cons, List.not_mem_nil, or_false] at hmark
      rcases hmark with rfl | rfl <;> rfl
  | @cons cs before after later name names h hbefore hafter _ ih =>
      obtain ⟨most, rfl⟩ : ∃ m, most = m + 1 := ⟨most - 1, by simp at hmost; omega⟩
      have hskip : skipSpace (before ++ '.' :: (after ++ later ++ rest)) =
          '.' :: (after ++ later ++ rest) := by
        rw [Toml.skipSpace_append hbefore, skipSpace_cons rfl]
      have hname := h.readName_append (isBareCharacter_of_skipSpace hskip rfl)
      have hlater := ih (Nat.le_of_succ_le_succ hmost)
      simp only [List.append_assoc, List.cons_append] at hname hskip ⊢
      rw [readNames, h.skipSpace_append, hname]
      simp only [Option.bind_eq_bind, Option.bind_some, hskip, Toml.readNames_append hafter, hlater]
      rfl

theorem IsKey.readKey_append (h : IsKey cs key) (hrest : EndsKey rest) :
    readKey (cs ++ rest) = some (key, skipSpace rest) := by
  rw [readKey, h.names.readNames_append hrest h.length]
  simp [Key.path]

theorem readKey_append {blanks : List Char} (h : AreBlanks blanks) (cs : List Char) :
    readKey (blanks ++ cs) = readKey cs := by
  rw [readKey, readKey, readNames_append h]

theorem AreNames.exists_cons (h : AreNames cs names) :
    ∃ c tail, cs = c :: tail ∧ IsContent c ∧ c ∉ ['[', '\x7d', '\uFEFF'] := by
  cases h with
  | last h => exact h.exists_cons
  | cons h =>
      obtain ⟨c, tail, rfl, hc⟩ := h.exists_cons
      exact ⟨c, _, rfl, hc⟩

end Keys

/-! ## Parts of a value -/

section

variable {levels : ℕ} {cs rest : List Char} {c : Char} {value : Value} {items : List Value}
  {pair : Key × Value} {pairs : List (Key × Value)}

theorem isContent_of_isWordCharacter (h : isWordCharacter c) :
    IsContent c ∧ c ∉ ['[', ']', '\x7b', '"', '\''] := by
  refine ⟨⟨?_, ?_, ?_, ?_, ?_⟩, ?_⟩
  any_goals rintro rfl; cases h
  intro hc
  simp only [List.mem_cons, List.not_mem_nil, or_false] at hc
  rcases hc with rfl | rfl | rfl | rfl | rfl <;> cases h

theorem IsQuote.exists_cons {text : String} (h : IsQuote cs text) :
    ∃ c tail, cs = c :: tail ∧ (c = '"' ∨ c = '\'') := by
  cases h with
  | short h =>
      cases h with
      | basic => exact ⟨_, _, rfl, Or.inl rfl⟩
      | literal => exact ⟨_, _, rfl, Or.inr rfl⟩
  | longBasic => exact ⟨_, _, rfl, Or.inl rfl⟩
  | longLiteral => exact ⟨_, _, rfl, Or.inr rfl⟩

/-- A value begins with a character of its own, which closes nothing. -/
theorem IsValue.exists_cons (h : IsValue levels cs value) :
    ∃ c tail, cs = c :: tail ∧ IsContent c ∧ c ≠ ']' := by
  cases h with
  | word h =>
      obtain ⟨c, tail, rfl, hc⟩ := h.exists_cons
      obtain ⟨hcontent, hmark⟩ := isContent_of_isWordCharacter hc
      exact ⟨c, tail, rfl, hcontent, fun heq => hmark (by simp [heq])⟩
  | text h =>
      obtain ⟨c, tail, rfl, rfl | rfl⟩ := h.exists_cons <;>
        exact ⟨_, tail, rfl, by simp [IsContent], by decide⟩
  | array | emptyTable | table => exact ⟨_, _, rfl, by simp [IsContent], by decide⟩

theorem IsValue.skipSpace_append (h : IsValue levels cs value) (rest : List Char) :
    skipSpace (cs ++ rest) = cs ++ rest := by
  obtain ⟨c, tail, rfl, hc, -⟩ := h.exists_cons
  exact skipSpace_cons_of_isContent hc _

theorem IsValue.skipLines_append (h : IsValue levels cs value) (rest : List Char) :
    skipLines (cs ++ rest) = cs ++ rest := by
  obtain ⟨c, tail, rfl, hc, -⟩ := h.exists_cons
  exact skipLines_cons_of_isContent hc _

theorem readValue_word (h : isWordCharacter c) (levels : ℕ) (cs : List Char) :
    readValue levels (c :: cs) = readScalar (c :: cs) := by
  obtain ⟨-, hmark⟩ := isContent_of_isWordCharacter h
  simp only [List.mem_cons, List.not_mem_nil, or_false, not_or] at hmark
  rw [readValue]
  all_goals (intros; simp_all)

theorem readValue_text {text : String} (h : IsQuote cs text) (hrest : Ends rest) (levels : ℕ) :
    readValue levels (cs ++ rest) = some (.string text, rest) := by
  have hhead {mark : Char} (hmark : mark ∈ ['"', '\'']) : rest.head? ≠ some mark := by
    intro hhead
    have hmem := hrest.mem_of_head? hhead
    simp only [List.mem_cons, List.not_mem_nil, or_false] at hmark
    rcases hmark with rfl | rfl <;> simp at hmem
  have hread := h.readQuoted_append (hhead (by simp)) (hhead (by simp))
  obtain ⟨c, tail, rfl, hc⟩ := h.exists_cons
  rw [List.cons_append] at hread ⊢
  rcases hc with rfl | rfl
  · rw [readValue.eq_def]
    simp only [hread, Option.map_some]
  · rw [readValue.eq_def]
    simp only [hread, Option.map_some]

section

variable {item : Reader Value} {before after : List Char} (hbefore : IsGap before)
  (hcs : ∃ c tail, cs = c :: tail ∧ IsContent c ∧ c ≠ ']') (hafter : IsGap after)
include hbefore hcs hafter

/-- An element is read up to its comma, and then the others are. -/
theorem readItems_comma (hitem : item (cs ++ (after ++ ',' :: rest)) =
      some (value, after ++ ',' :: rest)) (fuel : ℕ) :
    readItems item (fuel + 1) (before ++ (cs ++ (after ++ ',' :: rest))) =
      (readItems item fuel rest).map fun (values, rest) => (value :: values, rest) := by
  have hcomma : skipLines (',' :: rest) = ',' :: rest :=
    skipLines_cons_of_isContent (by simp [IsContent]) rest
  obtain ⟨c, tail, rfl, hc, hbracket⟩ := hcs
  rw [List.cons_append] at hitem
  rw [readItems, hbefore.skipLines_append, List.cons_append, skipLines_cons_of_isContent hc]
  split
  · exact absurd (List.cons.inj ‹_›).1 hbracket
  · simp only [hitem, Option.bind_eq_bind, Option.bind_some, hafter.skipLines_append, hcomma]
    cases readItems item fuel rest <;> rfl

/-- The last element is read up to the end of the array. -/
theorem readItems_last (hitem : item (cs ++ (after ++ ']' :: rest)) =
      some (value, after ++ ']' :: rest)) (fuel : ℕ) :
    readItems item (fuel + 1) (before ++ (cs ++ (after ++ ']' :: rest))) =
      some ([value], rest) := by
  have hclose : skipLines (']' :: rest) = ']' :: rest :=
    skipLines_cons_of_isContent (by simp [IsContent]) rest
  obtain ⟨c, tail, rfl, hc, hbracket⟩ := hcs
  rw [List.cons_append] at hitem
  rw [readItems, hbefore.skipLines_append, List.cons_append, skipLines_cons_of_isContent hc]
  split
  · exact absurd (List.cons.inj ‹_›).1 hbracket
  · simp only [hitem, Option.bind_eq_bind, Option.bind_some, hafter.skipLines_append, hclose]
    rfl

end

/-- A key, an equals sign and a value are read. -/
theorem readEntry_append {value : Reader Value} {name before after : List Char} {key : Key}
    {v : Value} (hkey : IsKey name key) (hbefore : AreBlanks before) (hafter : AreBlanks after)
    (hskip : skipSpace (cs ++ rest) = cs ++ rest) (hvalue : value (cs ++ rest) = some (v, rest)) :
    readEntry value (name ++ (before ++ '=' :: (after ++ (cs ++ rest)))) =
      some ((key, v), rest) := by
  have hmark : '=' ∈ ['=', ']'] := by simp
  have hread := hkey.readKey_append (endsKey_append hbefore hmark (after ++ (cs ++ rest)))
  rw [skipSpace_append hbefore, skipSpace_cons rfl] at hread
  rw [readEntry, hread]
  simp only [Option.bind_eq_bind, Option.bind_some, skipSpace_append hafter, hskip, hvalue]
  rfl

theorem readEntry_skipSpace (value : Reader Value) {blanks : List Char} (h : AreBlanks blanks)
    (cs : List Char) : readEntry value (blanks ++ cs) = readEntry value cs := by
  rw [readEntry, readEntry, readKey_append h]

section

variable {value : Reader Value} {before after : List Char} (hbefore : AreBlanks before)
  (hafter : AreBlanks after)
include hbefore hafter

/-- An entry of a table between braces is read up to its comma, and then the others are. -/
theorem readPairs_comma (hpair : readEntry value (cs ++ (after ++ ',' :: rest)) =
      some (pair, after ++ ',' :: rest)) (fuel : ℕ) :
    readPairs value (fuel + 1) (before ++ (cs ++ (after ++ ',' :: rest))) =
      (readPairs value fuel rest).map fun (pairs, rest) => (pair :: pairs, rest) := by
  have hcomma : skipSpace (',' :: rest) = ',' :: rest := skipSpace_cons rfl rest
  rw [readPairs, readEntry_skipSpace value hbefore, hpair]
  simp only [Option.bind_eq_bind, Option.bind_some, skipSpace_append hafter, hcomma]
  cases readPairs value fuel rest <;> rfl

/-- The last entry is read up to the end of the table. -/
theorem readPairs_last (hpair : readEntry value (cs ++ (after ++ '\x7d' :: rest)) =
      some (pair, after ++ '\x7d' :: rest)) (fuel : ℕ) :
    readPairs value (fuel + 1) (before ++ (cs ++ (after ++ '\x7d' :: rest))) =
      some ([pair], rest) := by
  have hclose : skipSpace ('\x7d' :: rest) = '\x7d' :: rest := skipSpace_cons rfl rest
  rw [readPairs, readEntry_skipSpace value hbefore, hpair]
  simp only [Option.bind_eq_bind, Option.bind_some, skipSpace_append hafter, hclose]
  rfl

end

theorem AreItems.length_le (h : AreItems levels cs items) : items.length ≤ cs.length := by
  induction items generalizing cs with
  | nil => exact Nat.zero_le _
  | cons item items ih =>
      cases h with
      | last _ hitem _ =>
          obtain ⟨c, tail, rfl, -⟩ := hitem.exists_cons
          simp only [List.length_cons, List.length_append, List.length_nil]
          omega
      | cons _ _ _ hitems =>
          have hlength := ih hitems
          simp only [List.length_cons, List.length_append]
          omega

theorem ArePairs.length_le (h : ArePairs levels cs pairs) : pairs.length ≤ cs.length := by
  induction pairs generalizing cs with
  | nil => exact Nat.zero_le _
  | cons pair pairs ih =>
      cases h with
      | last _ hpair _ =>
          cases hpair
          simp only [List.length_cons, List.length_append, List.length_nil]
          omega
      | cons _ _ _ hpairs =>
          have hlength := ih hpairs
          simp only [List.length_cons, List.length_append]
          omega

theorem ArePairs.length_pos (h : ArePairs levels cs pairs) : 0 < pairs.length := by
  cases h <;> simp

theorem IsEntry.exists_cons (h : IsEntry levels cs pair) :
    ∃ c tail, cs = c :: tail ∧ IsContent c ∧ c ∉ ['[', '\x7d', '\uFEFF'] := by
  cases h with
  | intro hkey =>
      obtain ⟨c, tail, rfl, hc⟩ := hkey.names.exists_cons
      exact ⟨c, _, rfl, hc⟩

/-- The entries of a table begin behind the blanks in front of them. -/
theorem ArePairs.exists_cons (h : ArePairs levels cs pairs) :
    ∃ blanks c tail, AreBlanks blanks ∧ cs = blanks ++ c :: tail ∧ IsContent c ∧ c ≠ '\x7d' ∧
      ArePairs levels (c :: tail) pairs := by
  cases h with
  | last hbefore hpair hafter =>
      have hpairs := ArePairs.last areBlanks_nil hpair hafter
      obtain ⟨c, tail, rfl, hc, hmark⟩ := hpair.exists_cons
      exact ⟨_, c, _, hbefore, rfl, hc, fun heq => hmark (by simp [heq]), hpairs⟩
  | cons hbefore hpair hafter hrest =>
      have hpairs := ArePairs.cons areBlanks_nil hpair hafter hrest
      obtain ⟨c, tail, rfl, hc, hmark⟩ := hpair.exists_cons
      exact ⟨_, c, _, hbefore, rfl, hc, fun heq => hmark (by simp [heq]), hpairs⟩

end

/-! ## Values -/

mutual

/-- A value is read, in whichever way it is written, if a value can end where it does. -/
theorem IsValue.readValue_append {levels : ℕ} {cs rest : List Char} {value : Value}
    (h : IsValue levels cs value) (hrest : Ends rest) :
    readValue levels (cs ++ rest) = some (value, rest) := by
  cases h with
  | word h =>
      have hread := h.readScalar_append hrest
      obtain ⟨c, tail, rfl, hc⟩ := h.exists_cons
      exact (readValue_word hc levels _).trans hread
  | text h => exact readValue_text h hrest levels
  | @array levels cs items h =>
      have hlength := h.length_le
      have hitems := AreItems.readItems_append h rest (cs ++ ']' :: rest).length
        (by rw [List.length_append]; omega)
      simp only [List.cons_append, List.append_assoc, List.nil_append]
      rw [readValue, hitems]
      rfl
  | @emptyTable levels cs h =>
      simp only [List.cons_append, List.append_assoc, List.nil_append]
      rw [readValue, readTable, skipSpace_append h, skipSpace_cons rfl]
      rfl
  | @table levels cs pairs entries h hentries =>
      obtain ⟨blanks, c, tail, hblanks, hcs, hc, hbrace, hpairs⟩ := h.exists_cons
      have hskip : skipSpace (cs ++ '\x7d' :: rest) = c :: (tail ++ '\x7d' :: rest) := by
        rw [hcs, List.append_assoc, skipSpace_append hblanks, List.cons_append,
          skipSpace_cons_of_isContent hc]
      have hshorter : tail.length < cs.length := by
        rw [hcs, List.length_append, List.length_cons]
        omega
      have hlength := hpairs.length_le
      have hread := ArePairs.readPairs_append hpairs rest (tail ++ '\x7d' :: rest).length
        (by simp only [List.length_append, List.length_cons] at hlength ⊢; omega)
      simp only [List.cons_append, List.append_assoc, List.nil_append] at hread ⊢
      rw [readValue, readTable, hskip]
      split
      · exact absurd (List.cons.inj ‹_›).1 hbrace
      · simp only [List.length_cons, hread, Option.bind_eq_bind, Option.bind_some, hentries]
        rfl
termination_by (cs.length, 0)
decreasing_by all_goals simp_wf; omega

theorem AreItems.readItems_append {levels : ℕ} {cs : List Char} {items : List Value}
    (h : AreItems levels cs items) (rest : List Char) :
    ∀ fuel, items.length ≤ fuel →
      readItems (readValue levels) (fuel + 1) (cs ++ ']' :: rest) = some (items, rest) := by
  cases h with
  | nil hgap =>
      intro fuel _
      have hclose : skipLines (']' :: rest) = ']' :: rest :=
        skipLines_cons_of_isContent (by simp [IsContent]) rest
      rw [readItems, hgap.skipLines_append, hclose]
      rfl
  | @last _ before cs after item hbefore hitem hafter =>
      intro fuel _
      have hread := IsValue.readValue_append hitem
        (hafter.ends_append (ends_cons (c := ']') (by decide) rest))
      simp only [List.append_assoc]
      exact readItems_last hbefore hitem.exists_cons hafter hread fuel
  | @cons _ before cs after later item items hbefore hitem hafter hitems =>
      intro fuel hfuel
      obtain ⟨fuel, rfl⟩ : ∃ m, fuel = m + 1 :=
        ⟨fuel - 1, by simp only [List.length_cons] at hfuel; omega⟩
      have hread := IsValue.readValue_append hitem
        (hafter.ends_append (ends_cons (c := ',') (by decide) (later ++ ']' :: rest)))
      have hlater := AreItems.readItems_append hitems rest fuel (by simpa using hfuel)
      simp only [List.append_assoc, List.cons_append]
      rw [readItems_comma hbefore hitem.exists_cons hafter hread, hlater]
      rfl
termination_by (cs.length, 1)
decreasing_by all_goals simp_wf; omega

theorem ArePairs.readPairs_append {levels : ℕ} {cs : List Char} {pairs : List (Key × Value)}
    (h : ArePairs levels cs pairs) (rest : List Char) :
    ∀ fuel, pairs.length ≤ fuel + 1 →
      readPairs (readValue levels) (fuel + 1) (cs ++ '\x7d' :: rest) = some (pairs, rest) := by
  cases h with
  | @last _ before cs after pair hbefore hpair hafter =>
      intro fuel _
      have hread := IsEntry.readEntry_append hpair
        (ends_append hafter (ends_cons (c := '\x7d') (by decide) rest))
      simp only [List.append_assoc]
      exact readPairs_last hbefore hafter hread fuel
  | @cons _ before cs after later pair pairs hbefore hpair hafter hpairs =>
      intro fuel hfuel
      have hpos := hpairs.length_pos
      obtain ⟨fuel, rfl⟩ : ∃ m, fuel = m + 1 :=
        ⟨fuel - 1, by simp only [List.length_cons] at hfuel; omega⟩
      have hread := IsEntry.readEntry_append hpair
        (ends_append hafter (ends_cons (c := ',') (by decide) (later ++ '\x7d' :: rest)))
      have hlater := ArePairs.readPairs_append hpairs rest fuel (by simpa using hfuel)
      simp only [List.append_assoc, List.cons_append]
      rw [readPairs_comma hbefore hafter hread, hlater]
      rfl
termination_by (cs.length, 1)
decreasing_by all_goals simp_wf; omega

theorem IsEntry.readEntry_append {levels : ℕ} {cs rest : List Char} {pair : Key × Value}
    (h : IsEntry levels cs pair) (hrest : Ends rest) :
    readEntry (readValue levels) (cs ++ rest) = some (pair, rest) := by
  cases h with
  | intro hkey hbefore hafter hvalue =>
      simp only [List.append_assoc, List.cons_append]
      exact Toml.readEntry_append hkey hbefore hafter (hvalue.skipSpace_append rest)
        (IsValue.readValue_append hvalue hrest)
termination_by (cs.length, 0)
decreasing_by all_goals simp_wf; omega

end

end DefiniteIntegral.Toml
