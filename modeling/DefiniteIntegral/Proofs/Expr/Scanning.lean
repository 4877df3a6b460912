import DefiniteIntegral.Proofs.Expr.Parsing
import DefiniteIntegral.Proofs.Number.Numeral
import Mathlib.Data.Nat.Find

/-! # Lexemes and the scan

The lexemes of expressions, and a text cut into them from left to right, each the longest at its
place. The tokens of a text are those of this scan, and a text without tokens is one where the scan
stops before the end. -/

namespace DefiniteIntegral

variable {α : Type}

/-! ## Classes of characters -/

theorem isDigit_iff_toNat {c : Char} : c.isDigit ↔ 48 ≤ c.toNat ∧ c.toNat ≤ 57 := by
  simp only [Char.isDigit, Bool.and_eq_true, decide_eq_true_eq, ge_iff_le, UInt32.le_iff_toNat_le]
  exact Iff.rfl

theorem isAlpha_iff_toNat {c : Char} :
    c.isAlpha ↔ 65 ≤ c.toNat ∧ c.toNat ≤ 90 ∨ 97 ≤ c.toNat ∧ c.toNat ≤ 122 := by
  have hranges : c.isAlpha =
      (decide (c.val ≥ 'A'.val ∧ c.val ≤ 'Z'.val) ||
        decide (c.val ≥ 'a'.val) && decide (c.val ≤ 'z'.val)) := rfl
  simp only [hranges, Bool.and_eq_true, Bool.or_eq_true, decide_eq_true_eq, ge_iff_le,
    UInt32.le_iff_toNat_le]
  exact Iff.rfl

theorem isNumberStart_iff_toNat {c : Char} :
    isNumberStart c ↔ 48 ≤ c.toNat ∧ c.toNat ≤ 57 ∨ c.toNat = 46 := by
  simp only [isNumberStart, Bool.or_eq_true, decide_eq_true_eq, isDigit_iff_toNat,
    ← Char.toNat_inj]
  exact Iff.rfl

theorem isNameStart_iff_toNat {c : Char} :
    isNameStart c ↔
      (65 ≤ c.toNat ∧ c.toNat ≤ 90 ∨ 97 ≤ c.toNat ∧ c.toNat ≤ 122) ∨ c.toNat = 95 := by
  simp only [isNameStart, Bool.or_eq_true, decide_eq_true_eq, isAlpha_iff_toNat, ← Char.toNat_inj]
  exact Iff.rfl

theorem not_isBlank_of_range {c : Char} (hmin : 33 ≤ c.toNat) (hmax : c.toNat ≤ 132) :
    ¬ isBlank c := by
  simp only [isBlank, blankRanges, List.any_cons, List.any_nil, Bool.or_eq_true, Bool.and_eq_true,
    decide_eq_true_eq, Bool.or_false]
  omega

theorem isNameCharacter_of_isNameStart {c : Char} (h : isNameStart c) : isNameCharacter c := by
  simp only [isNameStart, isNameCharacter, Char.isAlphanum, Bool.or_eq_true] at h ⊢
  tauto

/-! ## Lexemes -/

/-- The operators and the parentheses as they are written. -/
def symbols : List (List Char × Token α) :=
  [(['+'], .plus), (['-'], .minus), (['*'], .star), (['*', '*'], .doubleStar), (['/'], .slash),
    (['('], .openParen), ([')'], .closeParen)]

variable [Elementary α]

/-- The lexemes, and what each stands for: a blank for nothing, a number without a digit before its
exponent for a fault, and any other lexeme for a token. -/
inductive Lexeme : List Char → Except ScanFault (Option (Token α)) → Prop
  | blank {c : Char} (h : isBlank c) : Lexeme [c] (.ok none)
  | symbol {w : List Char} {token : Token α} (h : (w, token) ∈ symbols) :
      Lexeme w (.ok (some token))
  | name {c : Char} {cs : List Char} (h : isNameStart c) (hcs : ∀ d ∈ cs, isNameCharacter d) :
      Lexeme (c :: cs) (.ok (some (.name (String.ofList (c :: cs)))))
  | number {w : List Char} {n : Numeral} {d : Decimal} (h : IsNumber w n) (hd : n.value? = some d) :
      Lexeme w (.ok (some (.number (Elementary.ofDecimal d))))
  | digitless {w : List Char} {n : Numeral} (h : IsNumber w n) (hd : n.value? = none) :
      Lexeme w (.error (.invalidNumber (String.ofList w)))

/-- The longest lexeme at the head of a text, what it stands for, and what follows it. -/
structure Longest (cs w : List Char) (reading : Except ScanFault (Option (Token α)))
    (rest : List Char) : Prop where
  append_eq : w ++ rest = cs
  lexeme : Lexeme w reading
  longest : ∀ other (meaning : Except ScanFault (Option (Token α))),
    Lexeme other meaning → other <+: cs → other.length ≤ w.length

/-- A text is scanned up to a rest: its lexemes from left to right, each of them the longest at its
place, with the tokens that they stand for. -/
inductive Scan : List Char → List (List Char × Option (Token α)) → List Char → Prop
  | start (cs : List Char) : Scan cs [] cs
  | next {cs w tail rest : List Char} {token? : Option (Token α)}
      {pieces : List (List Char × Option (Token α))} (h : Longest cs w (.ok token?) tail)
      (htail : Scan tail pieces rest) : Scan cs ((w, token?) :: pieces) rest

theorem Lexeme.ne_nil {w : List Char} {reading : Except ScanFault (Option (Token α))}
    (h : Lexeme w reading) : w ≠ [] := by
  cases h with
  | blank => simp
  | symbol h =>
      rintro rfl
      simp [symbols] at h
  | name => simp
  | number h =>
      obtain ⟨c, cs, rfl, -⟩ := h.exists_cons
      simp
  | digitless h =>
      obtain ⟨c, cs, rfl, -⟩ := h.exists_cons
      simp

theorem exists_lexeme_of_isNumber {w : List Char} {n : Numeral} (h : IsNumber w n) :
    ∃ reading : Except ScanFault (Option (Token α)), Lexeme w reading := by
  cases hvalue : n.value? with
  | none => exact ⟨_, .digitless h hvalue⟩
  | some d => exact ⟨_, .number h hvalue⟩

theorem isNumber_singleton {c : Char} (h : c.isDigit ∨ c = '.') : ∃ n, IsNumber [c] n := by
  rcases h with hdigit | rfl
  · have hwhole : ∀ d ∈ [c], d.isDigit := by simpa using hdigit
    exact ⟨_, .intro hwhole .absent .absent (by simp)⟩
  · have hnone : ∀ d ∈ ([] : List Char), d.isDigit := by simp
    exact ⟨_, .intro hnone (.point hnone) .absent (by simp)⟩

/-- The first character of a lexeme is a lexeme. -/
theorem Lexeme.exists_singleton {c : Char} {cs : List Char}
    {reading : Except ScanFault (Option (Token α))} (h : Lexeme (c :: cs) reading) :
    ∃ meaning : Except ScanFault (Option (Token α)), Lexeme [c] meaning := by
  have hnumber {n : Numeral} (h : IsNumber (c :: cs) n) :
      ∃ meaning : Except ScanFault (Option (Token α)), Lexeme [c] meaning := by
    obtain ⟨d, ds, heq, hd⟩ := h.exists_cons
    obtain ⟨rfl, -⟩ := List.cons.inj heq
    obtain ⟨n, hn⟩ := isNumber_singleton hd
    exact exists_lexeme_of_isNumber hn
  cases h with
  | blank h => exact ⟨_, .blank h⟩
  | symbol h =>
      have hfirst : ∃ token : Token α, ([c], token) ∈ symbols := by
        simp only [symbols, List.mem_cons, Prod.mk.injEq, List.cons.injEq, List.not_mem_nil,
          or_false] at h ⊢
        rcases h with ⟨⟨rfl, -⟩, -⟩ | ⟨⟨rfl, -⟩, -⟩ | ⟨⟨rfl, -⟩, -⟩ | ⟨⟨rfl, -⟩, -⟩ |
          ⟨⟨rfl, -⟩, -⟩ | ⟨⟨rfl, -⟩, -⟩ | ⟨⟨rfl, -⟩, -⟩ <;> simp
      obtain ⟨token, htoken⟩ := hfirst
      exact ⟨_, .symbol htoken⟩
  | name h =>
      have hnone : ∀ d ∈ ([] : List Char), isNameCharacter d := by simp
      exact ⟨_, .name h hnone⟩
  | number h => exact hnumber h
  | digitless h => exact hnumber h

/-- A text begins with a longest lexeme, or with none. -/
theorem exists_longest_or (cs : List Char) :
    (∃ w reading rest, Longest (α := α) cs w reading rest) ∨
      ∀ w (reading : Except ScanFault (Option (Token α))), Lexeme w reading → ¬ w <+: cs := by
  classical
  rw [or_iff_not_imp_right]
  intro h
  push Not at h
  obtain ⟨w, reading, hw, hprefix⟩ := h
  let Candidate (length : Nat) : Prop :=
    ∃ w, ∃ reading : Except ScanFault (Option (Token α)),
      Lexeme w reading ∧ w <+: cs ∧ w.length = length
  obtain ⟨v, meaning, hv, ⟨rest, hrest⟩, hlength⟩ :
      Candidate (Nat.findGreatest Candidate cs.length) :=
    Nat.findGreatest_spec hprefix.length_le ⟨w, reading, hw, hprefix, rfl⟩
  refine ⟨v, meaning, rest, hrest, hv, ?_⟩
  intro other reading' hother hprefix'
  rw [hlength]
  exact Nat.le_findGreatest hprefix'.length_le ⟨other, reading', hother, hprefix', rfl⟩

/-! ## Tokens at the head of a text -/

section Head

variable {c : Char} {cs : List Char}

omit [Elementary α] in
theorem exists_symbol_of_symbol? {token : Token α} {length : Nat}
    (h : symbol? (c :: cs) = some (token, length)) : ∃ w, (c :: w, token) ∈ symbols := by
  unfold symbol? at h
  split at h
  case h_8 => cases h
  all_goals
    obtain ⟨rfl, rfl⟩ := Prod.mk.inj (Option.some.inj h)
    rename_i heq
    rw [(List.cons.inj heq).1]
    exact ⟨_, by simp [symbols]; rfl⟩

omit [Elementary α] in
theorem symbol?_eq_none (h : isNumberStart c ∨ isNameStart c) :
    (symbol? (c :: cs) : Option (Token α × Nat)) = none := by
  rw [isNumberStart_iff_toNat, isNameStart_iff_toNat] at h
  unfold symbol?
  split
  case h_8 => rfl
  all_goals
    rename_i heq
    rw [(List.cons.inj heq).1] at h
    simp at h

variable {w rest : List Char} {reading : Except ScanFault (Option (Token α))} {n : Numeral}
  {token : Token α} {position : Nat}

theorem Longest.symbol?_eq (h : Longest cs w reading rest) (hw : (w, token) ∈ symbols) :
    symbol? cs = some (token, w.length) := by
  obtain ⟨rfl, -, hlongest⟩ := h
  simp only [symbols, List.mem_cons, Prod.mk.injEq, List.not_mem_nil, or_false] at hw
  rcases hw with ⟨rfl, rfl⟩ | ⟨rfl, rfl⟩ | ⟨rfl, rfl⟩ | ⟨rfl, rfl⟩ | ⟨rfl, rfl⟩ | ⟨rfl, rfl⟩ |
    ⟨rfl, rfl⟩
  · rfl
  · rfl
  · -- A second star would belong to the lexeme.
    have hother : ∀ tail, rest ≠ '*' :: tail := by
      rintro tail rfl
      have hlength := hlongest ['*', '*'] (.ok (some .doubleStar)) (.symbol (by simp [symbols]))
        (by simp)
      simp at hlength
    cases rest with
    | nil => rfl
    | cons d rest =>
        have hd : d ≠ '*' := fun heq => hother rest (by rw [heq])
        unfold symbol?
        simp
  · rfl
  · rfl
  · rfl
  · rfl

theorem Longest.takeWhile_eq (h : Longest (c :: cs) w reading rest) (hc : isNameStart c)
    (hw : ∀ d ∈ w, isNameCharacter d) : (c :: cs).takeWhile isNameCharacter = w := by
  have hcharacter := isNameCharacter_of_isNameStart hc
  have hname := Lexeme.name (α := α) hc fun d (hd : d ∈ cs.takeWhile isNameCharacter) =>
    List.mem_takeWhile_imp hd
  rw [← List.takeWhile_cons_of_pos hcharacter] at hname
  have hlength := h.longest _ _ hname (List.takeWhile_prefix _)
  rw [← h.append_eq, List.takeWhile_append_of_pos hw] at hlength ⊢
  rw [List.length_append] at hlength
  have hnil : rest.takeWhile isNameCharacter = [] := List.length_eq_zero_iff.mp (by omega)
  rw [hnil, List.append_nil]

theorem Longest.spanNumeral_eq (h : Longest cs w reading rest) (hw : IsNumber w n) :
    spanNumeral cs = (w, n, rest) := by
  obtain ⟨rfl, -, hlongest⟩ := h
  obtain ⟨c, tail, rfl, hc⟩ := hw.exists_cons
  obtain ⟨more, hmore⟩ := hw.exists_span_append rest
  obtain ⟨v, m, after, hspan, hv, happend⟩ := exists_isNumber_span (tail ++ rest) hc
  rw [List.cons_append, hspan] at hmore
  obtain rfl : v = c :: tail ++ more := hmore
  obtain ⟨meaning, hmeaning⟩ := exists_lexeme_of_isNumber (α := α) hv
  have hlength := hlongest _ meaning hmeaning ⟨after, happend⟩
  obtain rfl : more = [] := by
    rw [List.length_append] at hlength
    exact List.length_eq_zero_iff.mp (by omega)
  rw [List.append_nil] at hv happend hspan
  obtain rfl : m = n := by
    have hself := hv.spanNumeral_eq_self.symm.trans hw.spanNumeral_eq_self
    exact (Prod.mk.inj (Prod.mk.inj hself).2).1
  rw [List.cons_append, hspan, List.append_cancel_left happend]

theorem tokensFrom_of_tokenAt (hw : w ≠ []) (hsplit : w ++ rest = c :: cs) (hc : ¬ isBlank c)
    (h : tokenAt position c cs = .ok (token, w.length)) :
    tokensFrom position (w ++ rest) =
      (tokensFrom (position + w.length) rest).map (token :: ·) := by
  cases w with
  | nil => exact absurd rfl hw
  | cons d w =>
      obtain ⟨rfl, rfl⟩ : d = c ∧ w ++ rest = cs := List.cons.inj hsplit
      have hmax : max (w.length + 1) 1 = w.length + 1 := Nat.max_eq_left (Nat.le_add_left _ _)
      rw [List.cons_append, tokensFrom, if_neg hc, h]
      simp only [ok_bind, List.length_cons, Nat.add_sub_cancel, List.drop_left, hmax]
      cases (tokensFrom (position + (w.length + 1)) rest :
        Except ScanFault (List (Token α))) <;> rfl

/-! ## One step of the scan -/

omit [Elementary α] in
theorem not_isBlank_of_symbol (h : symbol? (c :: cs) = some (token, w.length)) : ¬ isBlank c := by
  unfold symbol? at h
  split at h
  case h_8 => cases h
  all_goals
    rename_i heq
    rw [(List.cons.inj heq).1]
    decide

theorem not_isNumberStart_of_isNameStart (h : isNameStart c) : ¬ isNumberStart c := by
  rw [isNameStart_iff_toNat] at h
  rw [isNumberStart_iff_toNat]
  omega

theorem not_isBlank_of_start (h : isNumberStart c ∨ isNameStart c) : ¬ isBlank c := by
  rw [isNumberStart_iff_toNat, isNameStart_iff_toNat] at h
  exact not_isBlank_of_range (by omega) (by omega)

theorem tokenAt_name (hc : isNameStart c) (hw : (c :: cs).takeWhile isNameCharacter = w) :
    tokenAt position c cs = .ok ((.name (String.ofList w) : Token α), w.length) := by
  rw [tokenAt, symbol?_eq_none (.inr hc)]
  simp only [not_isNumberStart_of_isNameStart hc, hc, hw, Bool.false_eq_true, ↓reduceIte]

theorem tokenAt_number (hc : isNumberStart c) (hw : spanNumeral (c :: cs) = (w, n, rest)) :
    (tokenAt position c cs : Except ScanFault (Token α × Nat)) =
      match n.value? with
      | some d => .ok (.number (Elementary.ofDecimal d), w.length)
      | none => .error (.invalidNumber (String.ofList w)) := by
  rw [tokenAt, symbol?_eq_none (.inl hc)]
  cases hvalue : n.value? with
  | some d => simp only [hc, hw, hvalue, ↓reduceIte]
  | none => simp only [hc, hw, hvalue, ↓reduceIte]

theorem tokensFrom_of_tokenAt_error {fault : ScanFault} (hc : ¬ isBlank c)
    (h : (tokenAt position c cs : Except ScanFault (Token α × Nat)) = .error fault) :
    (tokensFrom position (c :: cs) : Except ScanFault (List (Token α))) = .error fault := by
  rw [tokensFrom, if_neg hc, h]
  rfl

omit [Elementary α] in
theorem isNumberStart_iff : isNumberStart c ↔ c.isDigit ∨ c = '.' := by
  simp [isNumberStart]

/-- A lexeme gives its token, or none. -/
theorem Longest.tokensFrom_eq {token? : Option (Token α)} (h : Longest cs w (.ok token?) rest)
    (position : Nat) :
    tokensFrom position cs =
      (tokensFrom (position + w.length) rest).map (token?.toList ++ ·) := by
  obtain ⟨c, tail, hw⟩ := List.exists_cons_of_ne_nil h.lexeme.ne_nil
  have hcs : cs = c :: (tail ++ rest) := by rw [← h.append_eq, hw, List.cons_append]
  have hsplit : w ++ rest = c :: (tail ++ rest) := h.append_eq.trans hcs
  cases h.lexeme with
  | blank hblank =>
      obtain rfl := h.append_eq
      rw [List.singleton_append, tokensFrom, if_pos hblank]
      cases (tokensFrom (position + 1) rest : Except ScanFault (List (Token α))) <;> rfl
  | symbol hsymbol =>
      rename_i token
      have hfound := h.symbol?_eq hsymbol
      rw [hcs] at hfound
      rw [← h.append_eq]
      refine tokensFrom_of_tokenAt h.lexeme.ne_nil hsplit (not_isBlank_of_symbol hfound) ?_
      rw [tokenAt, hfound]
  | name hc hrest =>
      obtain ⟨rfl, rfl⟩ := List.cons.inj hw
      rw [← h.append_eq]
      rw [hcs] at h
      refine tokensFrom_of_tokenAt h.lexeme.ne_nil hsplit (not_isBlank_of_start (.inr hc)) ?_
      refine tokenAt_name hc (h.takeWhile_eq hc ?_)
      exact List.forall_mem_cons.mpr ⟨isNameCharacter_of_isNameStart hc, hrest⟩
  | number hnumber hd =>
      have hc : isNumberStart c := by
        obtain ⟨d, ds, hds, hd⟩ := hnumber.exists_cons
        rw [(List.cons.inj (hw.symm.trans hds)).1]
        exact isNumberStart_iff.mpr hd
      have hspan := h.spanNumeral_eq hnumber
      rw [hcs] at hspan
      rw [← h.append_eq]
      refine tokensFrom_of_tokenAt h.lexeme.ne_nil hsplit (not_isBlank_of_start (.inl hc)) ?_
      rw [tokenAt_number hc hspan, hd]

/-- A number without a digit before its exponent is refused. -/
theorem Longest.tokensFrom_eq_error {fault : ScanFault}
    (h : Longest (α := α) cs w (.error fault) rest) (position : Nat) :
    (tokensFrom position cs : Except ScanFault (List (Token α))) = .error fault := by
  cases h.lexeme with
  | digitless hnumber hd =>
      obtain ⟨c, tail, rfl, hc⟩ := hnumber.exists_cons
      have hstart := isNumberStart_iff.mpr hc
      have hspan := h.spanNumeral_eq hnumber
      obtain rfl := h.append_eq
      refine tokensFrom_of_tokenAt_error (not_isBlank_of_start (.inl hstart)) ?_
      rw [tokenAt_number hstart hspan, hd]

/-- A character that begins no lexeme is refused. -/
theorem tokensFrom_of_no_lexeme
    (h : ∀ w (reading : Except ScanFault (Option (Token α))), ¬ Lexeme (c :: w) reading)
    (position : Nat) :
    (tokensFrom position (c :: cs) : Except ScanFault (List (Token α))) =
      .error (.unexpectedCharacter c position) := by
  have hblank : ¬ isBlank c := fun hc => h [] _ (.blank hc)
  have hsymbol : (symbol? (c :: cs) : Option (Token α × Nat)) = none := by
    rw [Option.eq_none_iff_forall_ne_some]
    rintro ⟨token, length⟩ hfound
    obtain ⟨w, hw⟩ := exists_symbol_of_symbol? hfound
    exact h w _ (.symbol hw)
  have hnumber : ¬ isNumberStart c := by
    intro hstart
    obtain ⟨n, hn⟩ := isNumber_singleton (isNumberStart_iff.mp hstart)
    obtain ⟨reading, hlexeme⟩ := exists_lexeme_of_isNumber (α := α) hn
    exact h [] reading hlexeme
  have hname : ¬ isNameStart c := fun hc => h [] _ (.name hc (by simp))
  refine tokensFrom_of_tokenAt_error hblank ?_
  simp only [tokenAt, hsymbol, hnumber, hname, Bool.false_eq_true, ↓reduceIte]

end Head

/-! ## The whole scan -/

section Whole

variable {cs rest : List Char} {pieces : List (List Char × Option (Token α))} {position : Nat}
  {fault : ScanFault}

/-- Why a scan goes no further than to a position: the character there begins no lexeme, or the
longest lexeme there is a number without a digit before its exponent. -/
inductive Refused (position : Nat) : List Char → ScanFault → Prop
  | stranger {c : Char} {cs : List Char}
      (h : ∀ w (reading : Except ScanFault (Option (Token α))), ¬ Lexeme (c :: w) reading) :
      Refused position (c :: cs) (.unexpectedCharacter c position)
  | digitless {cs w tail : List Char} {n : Numeral} (hw : IsNumber w n)
      (hn : n.whole = [] ∧ n.fraction = [])
      (h : Longest (α := α) cs w (.error (.invalidNumber (String.ofList w))) tail) :
      Refused position cs (.invalidNumber (String.ofList w))

theorem Scan.append_eq (h : Scan cs pieces rest) : pieces.flatMap Prod.fst ++ rest = cs := by
  induction h with
  | start => rfl
  | next h _ ih => rw [List.flatMap_cons, List.append_assoc, ih, h.append_eq]

theorem Lexeme.ne_eof {w : List Char} {token : Token α} (h : Lexeme w (.ok (some token))) :
    token ≠ .eof := by
  cases h with
  | symbol h =>
      rintro rfl
      simp [symbols] at h
  | name => simp
  | number => simp

theorem Scan.eof_notMem (h : Scan cs pieces rest) : .eof ∉ pieces.filterMap Prod.snd := by
  induction h with
  | start => exact List.not_mem_nil
  | @next cs w tail rest token? pieces h _ ih =>
      cases token? with
      | none => simpa using ih
      | some token => simpa using ⟨h.lexeme.ne_eof.symm, by simpa using ih⟩

/-- The tokens up to a rest are those of the lexemes before it. -/
theorem Scan.tokensFrom_eq (h : Scan cs pieces rest) (position : Nat) :
    tokensFrom position cs =
      (tokensFrom (position + (pieces.flatMap Prod.fst).length) rest).map
        (pieces.filterMap Prod.snd ++ ·) := by
  induction h generalizing position with
  | start cs =>
      show tokensFrom position cs = (tokensFrom (position + 0) cs).map ([] ++ ·)
      rw [Nat.add_zero]
      cases (tokensFrom position cs : Except ScanFault (List (Token α))) <;> rfl
  | @next cs w tail rest token? pieces h _ ih =>
      rw [h.tokensFrom_eq, ih, List.flatMap_cons, List.length_append, ← Nat.add_assoc]
      cases token? <;>
        cases (tokensFrom (position + w.length + (pieces.flatMap Prod.fst).length) rest :
          Except ScanFault (List (Token α))) <;> rfl

theorem Refused.tokensFrom_eq (h : Refused (α := α) position cs fault) :
    (tokensFrom position cs : Except ScanFault (List (Token α))) = .error fault := by
  cases h with
  | stranger h => exact tokensFrom_of_no_lexeme h position
  | digitless hw hn h => exact h.tokensFrom_eq_error position

/-- Every text is scanned to its end, or up to where the scan goes no further. -/
theorem exists_scan (cs : List Char) (position : Nat) :
    ∃ (pieces : List (List Char × Option (Token α))) (rest : List Char), Scan cs pieces rest ∧
      (rest = [] ∨
        ∃ fault, Refused (α := α) (position + (pieces.flatMap Prod.fst).length) rest fault) := by
  -- The rest behind a lexeme is shorter, since no lexeme is empty.
  induction hlength : cs.length using Nat.strong_induction_on generalizing cs position with
  | _ length ih =>
      rcases exists_longest_or (α := α) cs with ⟨w, reading, tail, h⟩ | hnone
      · cases reading with
        | error fault =>
            refine ⟨[], cs, .start cs, .inr ⟨fault, ?_⟩⟩
            cases h.lexeme with
            | digitless hw hn => exact .digitless hw (Numeral.value?_eq_none_iff.mp hn) h
        | ok token? =>
            have hshorter : tail.length < length := by
              have hpositive := List.length_pos_of_ne_nil h.lexeme.ne_nil
              rw [← hlength, ← h.append_eq, List.length_append]
              omega
            obtain ⟨pieces, rest, hscan, hstop⟩ :=
              ih tail.length hshorter tail (position + w.length) rfl
            refine ⟨(w, token?) :: pieces, rest, .next h hscan, ?_⟩
            rwa [List.flatMap_cons, List.length_append, ← Nat.add_assoc]
      · cases cs with
        | nil => exact ⟨[], [], .start [], .inl rfl⟩
        | cons c cs =>
            refine ⟨[], c :: cs, .start _, .inr ⟨_, .stranger ?_⟩⟩
            intro w reading hw
            obtain ⟨meaning, hc⟩ := hw.exists_singleton
            exact hnone [c] meaning hc (by simp)

theorem tokensFrom_eq_ok_iff {tokens : List (Token α)} :
    tokensFrom position cs = .ok tokens ↔
      ∃ pieces, Scan cs pieces [] ∧ tokens = pieces.filterMap Prod.snd ++ [.eof] := by
  constructor
  · intro h
    obtain ⟨pieces, rest, hscan, rfl | ⟨fault, hrefused⟩⟩ := exists_scan (α := α) cs position
    · rw [hscan.tokensFrom_eq, tokensFrom] at h
      exact ⟨pieces, hscan, (Except.ok.inj h).symm⟩
    · rw [hscan.tokensFrom_eq, hrefused.tokensFrom_eq] at h
      cases h
  · rintro ⟨pieces, hscan, rfl⟩
    rw [hscan.tokensFrom_eq, tokensFrom]
    rfl

theorem tokensFrom_eq_error_iff :
    (tokensFrom position cs : Except ScanFault (List (Token α))) = .error fault ↔
      ∃ (pieces : List (List Char × Option (Token α))) (rest : List Char), Scan cs pieces rest ∧
        Refused (α := α) (position + (pieces.flatMap Prod.fst).length) rest fault := by
  constructor
  · intro h
    obtain ⟨pieces, rest, hscan, rfl | ⟨fault', hrefused⟩⟩ := exists_scan (α := α) cs position
    · rw [hscan.tokensFrom_eq, tokensFrom] at h
      cases h
    · rw [hscan.tokensFrom_eq, hrefused.tokensFrom_eq] at h
      obtain rfl : fault' = fault := Except.error.inj h
      exact ⟨pieces, rest, hscan, hrefused⟩
  · rintro ⟨pieces, rest, hscan, hrefused⟩
    rw [hscan.tokensFrom_eq, hrefused.tokensFrom_eq]
    rfl

end Whole

/-- A number among the lexemes of a text stands for what its text is read as. -/
theorem Scan.readFloat?_eq {cs rest w : List Char}
    {pieces : List (List Char × Option (Token Float))} {value : Float}
    (h : Scan cs pieces rest) (hw : (w, some (.number value)) ∈ pieces) :
    readFloat? (String.ofList w) = some value := by
  induction h with
  | start => cases hw
  | next h _ ih =>
      rcases List.mem_cons.mp hw with heq | hw
      · obtain ⟨rfl, rfl⟩ := Prod.mk.inj heq
        cases h.lexeme with
        | symbol h => simp [symbols] at h
        | number hnumber hd =>
            rw [hnumber.readFloat?_eq, hd]
            rfl
      · exact ih hw

theorem IsNumber.readFloat?_eq_none_iff {w : List Char} {n : Numeral} (h : IsNumber w n) :
    readFloat? (String.ofList w) = none ↔ n.whole = [] ∧ n.fraction = [] := by
  rw [h.readFloat?_eq, Option.map_eq_none_iff, Numeral.value?_eq_none_iff]

/-- The tokens of a text are those of its lexemes from left to right, each the longest at its place,
with `eof` behind them and nowhere else. The lexemes make up the text. There are no tokens exactly
if the scan comes to a character that begins no lexeme, or to a number without a digit before its
exponent. No other number fails to be read. -/
theorem tokenize_exact (text : String) :
    (∀ tokens : List (Token Float), tokenize text = .ok tokens ↔
      ∃ pieces, Scan text.toList pieces [] ∧ tokens = pieces.filterMap Prod.snd ++ [.eof]) ∧
    (∀ fault, (tokenize text : Except ScanFault (List (Token Float))) = .error fault ↔
      ∃ (pieces : List (List Char × Option (Token Float))) (rest : List Char),
        Scan text.toList pieces rest ∧
          Refused (α := Float) (pieces.flatMap Prod.fst).length rest fault) ∧
    (∀ (pieces : List (List Char × Option (Token Float))) (rest : List Char),
      Scan text.toList pieces rest →
        pieces.flatMap Prod.fst ++ rest = text.toList ∧ .eof ∉ pieces.filterMap Prod.snd ∧
        ∀ w value, (w, some (.number value)) ∈ pieces →
          readFloat? (String.ofList w) = some value) ∧
    ∀ w n, IsNumber w n →
      (readFloat? (String.ofList w) = none ↔ n.whole = [] ∧ n.fraction = []) := by
  refine ⟨fun tokens => tokensFrom_eq_ok_iff, fun fault => ?_, ?_, ?_⟩
  · rw [tokenize, tokensFrom_eq_error_iff]
    simp only [Nat.zero_add]
  · intro pieces rest h
    exact ⟨h.append_eq, h.eof_notMem, fun w value hw => h.readFloat?_eq hw⟩
  · intro w n h
    exact h.readFloat?_eq_none_iff

example : (tokenize "x **#" : Except ScanFault (List (Token Float))) =
    .error (.unexpectedCharacter '#' 4) := by cbv

end DefiniteIntegral
