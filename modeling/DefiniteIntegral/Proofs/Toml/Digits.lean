import DefiniteIntegral.Proofs.Toml.Grammar
import Mathlib.Data.List.Forall2
import Mathlib.Tactic.IntervalCases

/-! # Numbers in digits

Whole numbers and numbers with a fraction or an exponent are read as what their digits stand for,
and the decimal digits of a number are one way to write it. -/

namespace DefiniteIntegral.Toml

/-! ## Digits in groups -/

section

variable {isDigit : Char → Bool} {cs digits rest sign : List Char} {c : Char}

theorem IsGrouped.head?_eq (h : IsGrouped cs digits) : cs.head? = digits.head? := by
  cases h <;> rfl

theorem IsGrouped.exists_cons (h : IsGrouped cs digits) : ∃ c tail, cs = c :: tail := by
  cases h <;> exact ⟨_, _, rfl⟩

theorem IsGrouped.mem_or_eq (h : IsGrouped cs digits) (hc : c ∈ cs) : c ∈ digits ∨ c = '_' := by
  induction h with
  | single d => exact Or.inl hc
  | next d _ ih =>
      rcases List.mem_cons.mp hc with rfl | hc
      · exact Or.inl List.mem_cons_self
      · exact (ih hc).imp_left (List.mem_cons_of_mem d)
  | across d _ ih =>
      rcases List.mem_cons.mp hc with rfl | hc
      · exact Or.inl List.mem_cons_self
      rcases List.mem_cons.mp hc with rfl | hc
      · exact Or.inr rfl
      · exact (ih hc).imp_left (List.mem_cons_of_mem d)

theorem IsGrouped.not_mem (h : IsGrouped cs digits) (hdigits : ∀ c ∈ digits, isDigit c)
    (hdigit : isDigit c = false) (hmark : c ≠ '_') : c ∉ cs := by
  intro hmem
  rw [hdigits c ((h.mem_or_eq hmem).resolve_right hmark)] at hdigit
  cases hdigit

theorem isGrouped_self (hne : cs ≠ []) : IsGrouped cs cs := by
  induction cs with
  | nil => exact absurd rfl hne
  | cons c cs ih =>
      rcases cs with - | ⟨d, cs⟩
      · exact .single c
      · exact .next c (ih (List.cons_ne_nil d cs))

theorem IsGrouped.ungroup?_eq (h : IsGrouped cs digits) (hdigits : ∀ c ∈ digits, isDigit c)
    (hmark : isDigit '_' = false) : ungroup? isDigit cs = some digits := by
  induction h with
  | single c => simp [ungroup?, hdigits]
  | @next c cs digits h ih =>
      obtain ⟨hc, hlater⟩ := List.forall_mem_cons.mp hdigits
      have hread := ih hlater
      have hhead := h.head?_eq
      obtain ⟨d, tail, rfl⟩ := h.exists_cons
      have hd : d ≠ '_' := by
        rintro rfl
        rw [hlater '_' (List.mem_of_head? hhead.symm)] at hmark
        cases hmark
      rw [ungroup?, if_pos hc, hread]
      · rfl
      · simp
      · simp [hd]
  | across c h ih =>
      obtain ⟨hc, hlater⟩ := List.forall_mem_cons.mp hdigits
      rw [ungroup?, if_pos hc, ih hlater]
      rfl

theorem isGrouped_of_ungroup? (h : ungroup? isDigit cs = some digits) :
    IsGrouped cs digits ∧ ∀ c ∈ digits, isDigit c := by
  fun_induction ungroup? isDigit cs generalizing digits with
  | case1 => cases h
  | case2 c hc =>
      obtain rfl := Option.some.inj h
      exact ⟨.single c, by simpa using hc⟩
  | case3 => cases h
  | case4 c rest hc ih =>
      obtain ⟨later, hlater, rfl⟩ := Option.map_eq_some_iff.mp h
      obtain ⟨hgrouped, hdigits⟩ := ih hlater
      exact ⟨.across c hgrouped, List.forall_mem_cons.mpr ⟨hc, hdigits⟩⟩
  | case5 => cases h
  | case6 c rest _ _ hc ih =>
      obtain ⟨later, hlater, rfl⟩ := Option.map_eq_some_iff.mp h
      obtain ⟨hgrouped, hdigits⟩ := ih hlater
      exact ⟨.next c hgrouped, List.forall_mem_cons.mpr ⟨hc, hdigits⟩⟩
  | case7 => cases h

/-- Nothing but digits and underscores is taken for digits. -/
theorem ungroup?_eq_none (hc : c ∈ cs) (hdigit : isDigit c = false) (hmark : c ≠ '_') :
    ungroup? isDigit cs = none := by
  rw [Option.eq_none_iff_forall_not_mem]
  intro digits h
  obtain ⟨hgrouped, hdigits⟩ := isGrouped_of_ungroup? h
  exact hgrouped.not_mem hdigits hdigit hmark hc

/-! ## Digits in a base -/

/-- Digits of a base are read as their number, after the number `first`. -/
theorem foldlM_digits {base : ℕ} {digits : List Char} {values : List ℕ}
    (h : List.Forall₂ (fun c d => hexValue? c = some d ∧ d < base) digits values) (first : ℕ) :
    digits.foldlM (fun n c => (hexValue? c).map (base * n + ·)) first =
      some (first * base ^ digits.length + Nat.ofDigits base values.reverse) := by
  induction h generalizing first with
  | nil => simp
  | @cons c d digits values hdigit hdigits ih =>
      have hlength : values.length = digits.length := hdigits.length_eq.symm
      rw [List.foldlM_cons, hdigit.1, Option.map_some, Option.bind_eq_bind, Option.bind_some, ih,
        List.reverse_cons, Nat.ofDigits_append, List.length_reverse, Nat.ofDigits_singleton,
        hlength, List.length_cons]
      congr 1
      ring

theorem IsNumberIn.foldlM_eq {base n : ℕ} {digits : List Char} (h : IsNumberIn base digits n) :
    digits.foldlM (fun n c => (hexValue? c).map (base * n + ·)) 0 = some n := by
  obtain ⟨values, hvalues, rfl⟩ := h
  rw [foldlM_digits hvalues, Nat.zero_mul, Nat.zero_add]

theorem IsNumberIn.exists_value {base n : ℕ} (h : IsNumberIn base digits n) (hc : c ∈ digits) :
    ∃ d < base, hexValue? c = some d := by
  obtain ⟨values, hvalues, -⟩ := h
  induction hvalues with
  | nil => cases hc
  | cons hdigit _ ih =>
      rcases List.mem_cons.mp hc with rfl | hc
      · exact ⟨_, hdigit.2, hdigit.1⟩
      · exact ih hc

/-- A value below ten is that of a decimal digit. -/
theorem eq_digitChar_of_hexValue? {d : ℕ} (h : hexValue? c = some d) (hd : d < 10) :
    c = d.digitChar := by
  unfold hexValue? at h
  split at h
  · rename_i hdigit
    obtain rfl := Option.some.inj h
    obtain ⟨hlow, hhigh⟩ := Char.isDigit_iff_toNat.mp hdigit
    obtain ⟨n, hn⟩ : ∃ n, c.toNat = n := ⟨_, rfl⟩
    rw [hn] at hlow hhigh ⊢
    rw [← Char.ofNat_toNat c, hn]
    have hlow' : 48 ≤ n := hlow
    have hhigh' : n ≤ 57 := hhigh
    interval_cases n <;> rfl
  split at h
  · obtain rfl := Option.some.inj h
    omega
  split at h
  · obtain rfl := Option.some.inj h
    omega
  · cases h

theorem IsGrouped.baseNumber?_eq {base n : ℕ} (isDigit : Char → Bool)
    (hgrouped : IsGrouped cs digits) (h : IsNumberIn base digits n) (hmark : isDigit '_' = false)
    (hdigit : ∀ c, ∀ d < base, hexValue? c = some d → isDigit c) :
    baseNumber? base isDigit cs = some n := by
  have hdigits : ∀ c ∈ digits, isDigit c := fun c hc => by
    obtain ⟨d, hd, hvalue⟩ := h.exists_value hc
    exact hdigit c d hd hvalue
  rw [baseNumber?, hgrouped.ungroup?_eq hdigits hmark, Option.bind_eq_bind, Option.bind_some,
    h.foldlM_eq]

/-! ## Whole numbers -/

theorem IsWhole.decimalDigits?_eq (h : IsWhole cs digits) : decimalDigits? cs = some digits := by
  unfold decimalDigits?
  split
  · cases h.zero rfl
  · exact h.grouped.ungroup?_eq h.isDigit rfl

theorem IsWhole.exists_cons (h : IsWhole cs digits) : ∃ c tail, cs = c :: tail ∧ c.isDigit := by
  obtain ⟨c, tail, rfl⟩ := h.grouped.exists_cons
  exact ⟨c, tail, rfl, h.isDigit c (List.mem_of_head? h.grouped.head?_eq.symm)⟩

theorem splitSign_append (hsign : sign ∈ signs) (hcs : ∀ c ∈ cs.head?, c ≠ '-' ∧ c ≠ '+') :
    splitSign (sign ++ cs) = (decide (sign = ['-']), cs) := by
  simp only [signs, List.mem_cons, List.not_mem_nil, or_false] at hsign
  rcases hsign with rfl | rfl | rfl
  · rw [List.nil_append, splitSign]
    · rfl
    · rintro rest rfl
      exact (hcs _ rfl).1 rfl
    · rintro rest rfl
      exact (hcs _ rfl).2 rfl
  · rfl
  · rfl

/-- A digit is no sign. -/
theorem ne_sign_of_isDigit (hc : c.isDigit) : c ≠ '-' ∧ c ≠ '+' := by
  constructor <;> (rintro rfl; simp at hc)

theorem mem_sign_append {p : Char → Prop} (hsign : sign ∈ signs) (hplus : p '+') (hminus : p '-')
    (hcs : ∀ c ∈ cs, p c) : ∀ c ∈ sign ++ cs, p c := by
  simp only [signs, List.mem_cons, List.not_mem_nil, or_false] at hsign
  rcases hsign with rfl | rfl | rfl
  · exact hcs
  · exact List.forall_mem_cons.mpr ⟨hplus, hcs⟩
  · exact List.forall_mem_cons.mpr ⟨hminus, hcs⟩

/-- Decimal digits have no letter among them. -/
theorem IsWhole.not_mem (h : IsWhole cs digits) (hsign : sign ∈ signs) (hdigit : c.isDigit = false)
    (hmark : c ∉ ['_', '+', '-']) : c ∉ sign ++ cs := by
  simp only [List.mem_cons, List.not_mem_nil, or_false, not_or] at hmark
  obtain ⟨hunderscore, hplus, hminus⟩ := hmark
  have hcs : ∀ d ∈ cs, d ≠ c := by
    rintro d hd rfl
    exact h.grouped.not_mem h.isDigit hdigit hunderscore hd
  have hall := mem_sign_append (p := (· ≠ c)) hsign (Ne.symm hplus) (Ne.symm hminus) hcs
  exact fun hmem => hall c hmem rfl

theorem integer?_decimal (h : IsWhole cs digits) (hsign : sign ∈ signs) :
    integer? (sign ++ cs) =
      let n := if sign = ['-'] then -Int.ofNat (valueOfDigits digits)
        else Int.ofNat (valueOfDigits digits)
      if -Int.pow 2 63 ≤ n ∧ n < Int.pow 2 63 then some n else none := by
  have hletter {mark : Char} (hmark : mark ∈ ['x', 'o', 'b']) (later : List Char) :
      sign ++ cs ≠ '0' :: mark :: later := by
    intro heq
    simp only [List.mem_cons, List.not_mem_nil, or_false] at hmark
    refine h.not_mem (c := mark) hsign ?_ ?_ (heq ▸ List.mem_cons_of_mem _ List.mem_cons_self)
    · rcases hmark with rfl | rfl | rfl <;> rfl
    · rcases hmark with rfl | rfl | rfl <;> decide
  obtain ⟨c, tail, rfl, hc⟩ := h.exists_cons
  have hfirst : ∀ d ∈ (c :: tail).head?, d ≠ '-' ∧ d ≠ '+' := by
    rintro d ⟨⟩
    exact ne_sign_of_isDigit hc
  have hsplit := splitSign_append hsign hfirst
  rw [integer?, hsplit]
  · simp only [h.decimalDigits?_eq, Option.bind_eq_bind, Option.bind_some, Option.pure_def,
      decide_eq_true_eq]
  · exact fun later => hletter (by decide) later
  · exact fun later => hletter (by decide) later
  · exact fun later => hletter (by decide) later

theorem integer?_based {mark : Char} {base n : ℕ} (hmark : (mark, base) ∈ baseMarks)
    (hgrouped : IsGrouped cs digits) (h : IsNumberIn base digits n) :
    integer? ('0' :: mark :: cs) =
      if -Int.pow 2 63 ≤ Int.ofNat n ∧ Int.ofNat n < Int.pow 2 63 then some (Int.ofNat n)
      else none := by
  simp only [baseMarks, List.mem_cons, List.not_mem_nil, or_false, Prod.mk.injEq] at hmark
  rcases hmark with ⟨rfl, rfl⟩ | ⟨rfl, rfl⟩ | ⟨rfl, rfl⟩
  · have hread := hgrouped.baseNumber?_eq (fun c => (hexValue? c).isSome) h rfl
      fun c d _ hvalue => by rw [hvalue]; rfl
    rw [integer?, hread, Option.map_some, Option.bind_eq_bind, Option.bind_some]
  · have hread := hgrouped.baseNumber?_eq (fun c => '0' ≤ c && c ≤ '7') h rfl
      fun c d hd hvalue => by
        rw [eq_digitChar_of_hexValue? hvalue (by omega)]
        interval_cases d <;> rfl
    rw [integer?, hread, Option.map_some, Option.bind_eq_bind, Option.bind_some]
  · have hread := hgrouped.baseNumber?_eq (fun c => c = '0' || c = '1') h rfl
      fun c d hd hvalue => by
        rw [eq_digitChar_of_hexValue? hvalue (by omega)]
        interval_cases d <;> rfl
    rw [integer?, hread, Option.map_some, Option.bind_eq_bind, Option.bind_some]

/-- A whole number of 64 bits is read, in whichever notation it is written. -/
theorem IsInteger.integer?_eq {n : ℤ} (h : IsInteger cs n) (hlow : -2 ^ 63 ≤ n)
    (hhigh : n < 2 ^ 63) : integer? cs = some n := by
  have hbound : Int.pow 2 63 = 2 ^ 63 := rfl
  have hrange : -Int.pow 2 63 ≤ n ∧ n < Int.pow 2 63 := by
    rw [hbound]
    exact ⟨hlow, hhigh⟩
  cases h with
  | decimal hsign h => exact (integer?_decimal h hsign).trans (if_pos hrange)
  | based hmark hgrouped h => exact (integer?_based hmark hgrouped h).trans (if_pos hrange)

/-! ## Numbers with a fraction or an exponent -/

/-- A run of characters of a class ends where another character follows. -/
theorem takeWhile_dropWhile_append {p : Char → Bool} (hcs : ∀ c ∈ cs, p c)
    (hrest : ∀ c ∈ rest.head?, p c = false) :
    (cs ++ rest).takeWhile p = cs ∧ (cs ++ rest).dropWhile p = rest := by
  rw [List.takeWhile_append_of_pos hcs, List.dropWhile_append_of_pos hcs]
  rcases rest with - | ⟨c, rest⟩
  · simp
  · simp [hrest c rfl]

theorem isExponentMark_of_mem (h : c ∈ ['e', 'E']) : isExponentMark c := by
  simpa [isExponentMark] using h

theorem IsGrouped.head?_ne_sign (h : IsGrouped cs digits) (hdigits : ∀ c ∈ digits, c.isDigit) :
    ∀ c ∈ cs.head?, c ≠ '-' ∧ c ≠ '+' := fun c hc =>
  ne_sign_of_isDigit (hdigits c (List.mem_of_head? (h.head?_eq ▸ hc)))

theorem IsPower.head?_eq {power : Option (Bool × List Char)} (h : IsPower cs power) :
    ∀ c ∈ cs.head?, isExponentMark c := by
  cases h with
  | absent => exact nofun
  | marked hmark =>
      rintro c ⟨⟩
      exact isExponentMark_of_mem hmark

theorem ne_mark_of_isDigit (hc : c.isDigit ∨ c = '_') : isExponentMark c = false := by
  rw [← Bool.not_eq_true, isExponentMark]
  rintro hmark
  simp only [Bool.or_eq_true, decide_eq_true_eq] at hmark
  rcases hmark with rfl | rfl <;> simp at hc

theorem isGrouped_class (h : IsGrouped cs digits) (hdigits : ∀ c ∈ digits, c.isDigit) :
    ∀ c ∈ cs, c.isDigit ∨ c = '_' := fun c hc => (h.mem_or_eq hc).imp_left (hdigits c)

theorem isDigit_exponentMark {mark : Char} (h : isExponentMark mark) :
    (mark.isDigit || mark = '_') = false := by
  simp only [isExponentMark, Bool.or_eq_true, decide_eq_true_eq] at h
  rcases h with rfl | rfl <;> rfl

/-- A number with a fraction or an exponent is split where its notation changes. -/
theorem IsReal.numeral?_eq {n : Numeral} (h : IsReal cs n) : numeral? cs = some n := by
  obtain ⟨hwhole, hplaces, hpower, hne⟩ := h
  rename_i whole places exponent digits fraction power
  have hrest : ∀ c ∈ (places ++ exponent).head?, (c.isDigit || c = '_') = false := by
    cases hplaces with
    | absent => exact fun c hc => isDigit_exponentMark (hpower.head?_eq c hc)
    | point =>
        rintro c ⟨⟩
        rfl
  have hdigits : ∀ c ∈ whole, (c.isDigit || c = '_') = true := fun c hc => by
    simpa using isGrouped_class hwhole.grouped hwhole.isDigit c hc
  have hspan := takeWhile_dropWhile_append hdigits hrest
  rw [numeral?, hspan.1, hspan.2, hwhole.decimalDigits?_eq]
  cases hplaces with
  | absent =>
      cases hpower with
      | absent => exact absurd rfl hne
      | marked hmark hsign hgrouped hdigits =>
          have hsplit := splitSign_append hsign (hgrouped.head?_ne_sign hdigits)
          simp only [List.mem_cons, List.not_mem_nil, or_false] at hmark
          rcases hmark with rfl | rfl <;>
            simp [isExponentMark, hsplit, hgrouped.ungroup?_eq hdigits rfl]
  | @point body _ hfraction hdigits =>
      have hplain : ∀ c ∈ body, (!isExponentMark c) = true := fun c hc => by
        simp [ne_mark_of_isDigit (isGrouped_class hfraction hdigits c hc)]
      have hmark : ∀ c ∈ exponent.head?, (!isExponentMark c) = false := fun c hc => by
        simp [hpower.head?_eq c hc]
      have hbody := takeWhile_dropWhile_append hplain hmark
      simp only [List.cons_append, hbody.1, hbody.2, hfraction.ungroup?_eq hdigits rfl]
      cases hpower with
      | absent => rfl
      | marked hmark hsign hgrouped hdigits =>
          have hsplit := splitSign_append hsign (hgrouped.head?_ne_sign hdigits)
          simp [hsplit, hgrouped.ungroup?_eq hdigits rfl]

end

/-! ## The digits of a number -/

theorem isDigit_of_mem_toDigits {n : Nat} : ∀ c ∈ Nat.toDigits 10 n, c.isDigit := fun _ hc =>
  Nat.isDigit_of_mem_toDigits (by decide) (by decide) hc

theorem valueOfDigits_toDigits (n : Nat) : valueOfDigits (Nat.toDigits 10 n) = n :=
  Nat.ofDigitChars_ten_toDigits

/-- The digits of a number other than zero do not begin with a zero. -/
theorem head?_toDigits_ne_zero {n : Nat} (h : n ≠ 0) : (Nat.toDigits 10 n).head? ≠ some '0' := by
  induction n using Nat.strongRecOn with
  | ind n ih =>
      by_cases hlt : n < 10
      · have hdigit : ∀ d : Fin 10, d.val ≠ 0 → [d.val.digitChar].head? ≠ some '0' := by decide
        rw [Nat.toDigits_of_lt_base hlt]
        exact hdigit ⟨n, hlt⟩ h
      · have hfirst := ih (n / 10) (by omega) (by omega)
        rw [Nat.toDigits_of_base_le (by decide) (Nat.not_lt.mp hlt)]
        rcases hdigits : Nat.toDigits 10 (n / 10) with - | ⟨c, cs⟩
        · exact absurd hdigits Nat.toDigits_ne_nil
        · rwa [hdigits] at hfirst

theorem isWhole_toDigits (n : ℕ) : IsWhole (Nat.toDigits 10 n) (Nat.toDigits 10 n) where
  grouped := isGrouped_self Nat.toDigits_ne_nil
  isDigit := isDigit_of_mem_toDigits
  zero hhead := by
    by_cases h : n = 0
    · rw [h, Nat.toDigits_zero]
    · exact absurd hhead (head?_toDigits_ne_zero h)

/-- The decimal digits of a number are one way to write it. -/
theorem isInteger_repr (n : ℕ) : IsInteger n.repr.toList n := by
  have hsign : [] ∈ signs := by decide
  have hdigits := IsInteger.decimal hsign (isWhole_toDigits n)
  rwa [if_neg (by decide), valueOfDigits_toDigits, List.nil_append, ← Nat.toList_repr] at hdigits

end DefiniteIntegral.Toml
