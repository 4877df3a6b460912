import DefiniteIntegral.Proofs.Json.Grammar

/-! # Numbers in JSON texts

A number is read to its end if what follows can stand after a value. -/

namespace DefiniteIntegral.Json

/-- Whether a text begins with what may stand after a value, if it goes on. -/
def Stops (rest : List Char) : Prop :=
  ∀ c, rest.head? = some c → c ∈ [' ', '\n', '\t', '\r', ',', ']', '\x7d']

section Numbers

variable {w ds rest fraction digits exponent : List Char} {n : NumeralText}
  {power : Option (Bool × List Char)}

/-- Whether a text does not go on with a digit. -/
def EndsDigits (rest : List Char) : Prop :=
  ∀ c, rest.head? = some c → c.isDigit = false

theorem span_digits (h : ∀ c ∈ ds, c.isDigit) (hrest : EndsDigits rest) :
    (ds ++ rest).span Char.isDigit = (ds, rest) := by
  have hstop : rest.takeWhile Char.isDigit = [] ∧ rest.dropWhile Char.isDigit = rest := by
    cases rest with
    | nil => exact ⟨rfl, rfl⟩
    | cons c rest => simp [hrest c rfl]
  rw [List.span_eq_takeWhile_dropWhile, List.takeWhile_append_of_pos h,
    List.dropWhile_append_of_pos h, hstop.1, hstop.2, List.append_nil]

theorem Stops.endsDigits (h : Stops rest) : EndsDigits rest := by
  intro c hc
  have := h c hc
  simp only [List.mem_cons, List.not_mem_nil, or_false] at this
  rcases this with rfl | rfl | rfl | rfl | rfl | rfl | rfl <;> rfl

theorem spanPoint?_append (hfraction : IsFraction fraction digits) (hpoint : fraction ≠ ['.'])
    (hrest : EndsDigits rest) (hhead : rest.head? ≠ some '.') :
    spanPoint? (fraction ++ rest) = some (digits, rest) := by
  cases hfraction with
  | absent =>
      rw [List.nil_append, spanPoint?]
      rintro cs rfl
      exact hhead rfl
  | point hdigits =>
      rw [List.cons_append, spanPoint?, span_digits hdigits hrest]
      cases digits with
      | nil => exact absurd rfl hpoint
      | cons d ds => rfl

theorem dropSign_append {sign : List Char} (hsign : sign ∈ [[], ['+'], ['-']])
    (hdigits : ∀ c ∈ digits, c.isDigit) (hne : digits ≠ []) (rest : List Char) :
    dropSign (sign ++ (digits ++ rest)) = (decide (sign = ['-']), digits ++ rest) := by
  simp only [List.mem_cons, List.not_mem_nil, or_false] at hsign
  rcases hsign with rfl | rfl | rfl
  · obtain ⟨d, ds, rfl⟩ := List.exists_cons_of_ne_nil hne
    have hd : d.isDigit := hdigits d List.mem_cons_self
    rw [List.nil_append, List.cons_append, dropSign]
    · rfl
    · rintro cs ⟨⟩
      cases hd
    · rintro cs ⟨⟩
      cases hd
  · rfl
  · rfl

theorem spanPower?_append (hexponent : IsExponent exponent power) (hrest : Stops rest) :
    spanPower? (exponent ++ rest) = some (power, rest) := by
  cases hexponent with
  | absent =>
      cases rest with
      | nil => rfl
      | cons c rest =>
          have hc : c ≠ 'e' ∧ c ≠ 'E' := by
            constructor <;> rintro rfl <;> simpa using hrest _ rfl
          simp [spanPower?, hc]
  | @marked mark sign digits hmark hsign hdigits hne =>
      have hmark : mark = 'e' ∨ mark = 'E' := by simpa using hmark
      obtain ⟨d, ds, rfl⟩ := List.exists_cons_of_ne_nil hne
      simp only [List.cons_append, List.append_assoc, spanPower?, hmark, ↓reduceIte]
      have hsigned := dropSign_append hsign hdigits hne rest
      have hspan := span_digits hdigits hrest.endsDigits
      simp only [List.cons_append] at hsigned hspan
      rw [hsigned, hspan]

theorem endsDigits_append (h : IsExponent exponent power) (hrest : Stops rest) :
    EndsDigits (exponent ++ rest) := by
  cases h with
  | absent => exact hrest.endsDigits
  | marked hmark =>
      rintro c ⟨⟩
      exact isDigit_mark hmark

theorem head?_append_ne_point (h : IsExponent exponent power) (hrest : Stops rest) :
    (exponent ++ rest).head? ≠ some '.' := by
  cases h with
  | absent =>
      intro hhead
      simpa using hrest _ hhead
  | marked hmark =>
      rintro ⟨⟩
      simp at hmark

theorem IsNumeral.spanNumeral?_append (h : IsNumeral w n) (hrest : Stops rest) :
    spanNumeral? (w ++ rest) = some (n, rest) := by
  obtain ⟨hsign, hwhole, hne, hzero, hfraction, hpoint, hexponent⟩ := h
  rename_i sign whole fraction digits exponent power
  have hunsigned (negative : Bool) :
      spanUnsigned? negative (whole ++ (fraction ++ (exponent ++ rest))) =
        some (⟨negative, whole, digits, power⟩, rest) := by
    have hexponent' := endsDigits_append hexponent hrest
    have hfraction' : EndsDigits (fraction ++ (exponent ++ rest)) := by
      cases hfraction with
      | absent => exact hexponent'
      | point => rintro c ⟨⟩; rfl
    have hleading : ¬ (whole = [] ∨ whole.head? = some '0' ∧ 1 < whole.length) := by
      rintro (hnil | ⟨hhead, hlong⟩)
      · exact hne hnil
      · simp [hzero hhead] at hlong
    simp only [spanUnsigned?, span_digits hwhole hfraction', hleading, ↓reduceIte,
      spanPoint?_append hfraction hpoint hexponent' (head?_append_ne_point hexponent hrest),
      Option.bind_eq_bind, Option.bind_some, spanPower?_append hexponent hrest]
    rfl
  simp only [List.mem_cons, List.not_mem_nil, or_false] at hsign
  rcases hsign with rfl | rfl
  · obtain ⟨d, ds, rfl⟩ := List.exists_cons_of_ne_nil hne
    have hd : d.isDigit := hwhole d List.mem_cons_self
    have hspan := hunsigned false
    simp only [List.nil_append, List.cons_append, List.append_assoc] at hspan ⊢
    rw [spanNumeral?]
    · exact hspan
    · rintro cs ⟨⟩
      cases hd
  · simp only [List.append_assoc]
    exact hunsigned true

/-! ## Natural numbers -/

theorem valueOfDigits_concat (ds : List Char) (c : Char) :
    valueOfDigits (ds ++ [c]) = 10 * valueOfDigits ds + (c.toNat - '0'.toNat) := by
  rw [valueOfDigits, List.foldl_append]
  rfl

theorem valueOfDigits_le_append (ds more : List Char) :
    valueOfDigits ds ≤ valueOfDigits (ds ++ more) := by
  induction more generalizing ds with
  | nil => rw [List.append_nil]
  | cons c more ih =>
      have hnext := ih (ds ++ [c])
      rw [valueOfDigits_concat, List.append_assoc, List.singleton_append] at hnext
      omega

/-- All digits are gathered if their value has 64 bits. -/
theorem gather_append (ds more : List Char) (h : valueOfDigits (ds ++ more) < wordBound) :
    gather (valueOfDigits ds) more = (valueOfDigits (ds ++ more), 0) := by
  induction more generalizing ds with
  | nil => rw [gather, List.append_nil]
  | cons c more ih =>
      have hcons : ds ++ c :: more = ds ++ [c] ++ more := by simp
      rw [hcons] at h
      have hnext : valueOfDigits (ds ++ [c]) < wordBound :=
        (valueOfDigits_le_append _ more).trans_lt h
      rw [gather, ← valueOfDigits_concat, if_pos hnext, ih _ h, hcons]

theorem value?_digits (h : valueOfDigits ds < wordBound) :
    NumeralText.value? ⟨false, ds, [], none⟩ = some (.natural (valueOfDigits ds)) := by
  have hgather : gather 0 ds = (valueOfDigits ds, 0) := gather_append [] ds h
  simp [NumeralText.value?, hgather]

end Numbers

end DefiniteIntegral.Json
