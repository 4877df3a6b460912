import DefiniteIntegral.Number.Decimal
import Mathlib.Data.List.TakeDrop
import Mathlib.Data.List.TakeWhile

/-! # Numerals in a text

How a number is written, and what is read at the head of a text: whatever is written there as a
number and perhaps more of it. The text of a number alone is read as a floating-point number exactly
if it has a digit before its exponent. -/

namespace DefiniteIntegral

/-! ## Notation -/

/-- How the digits behind a point are written, if there is a point. -/
inductive IsFraction : List Char → List Char → Prop
  | absent : IsFraction [] []
  | point {digits : List Char} (h : ∀ c ∈ digits, c.isDigit) : IsFraction ('.' :: digits) digits

/-- How an exponent is written, if there is one: a mark, perhaps a sign, and at least one digit. -/
inductive IsExponent : List Char → Option (Bool × List Char) → Prop
  | absent : IsExponent [] none
  | marked {mark : Char} {sign digits : List Char} (hmark : mark ∈ ['e', 'E'])
      (hsign : sign ∈ [[], ['+'], ['-']]) (h : ∀ c ∈ digits, c.isDigit) (hne : digits ≠ []) :
      IsExponent (mark :: (sign ++ digits)) (some (sign = ['-'], digits))

/-- How a number is written: digits, perhaps a point and digits, and perhaps an exponent. Before the
exponent stands at least one character, which can be the point alone. -/
inductive IsNumber : List Char → Numeral → Prop
  | intro {whole fraction exponent digits : List Char} {power : Option (Bool × List Char)}
      (hwhole : ∀ c ∈ whole, c.isDigit) (hfraction : IsFraction fraction digits)
      (hexponent : IsExponent exponent power) (hne : whole ++ fraction ≠ []) :
      IsNumber (whole ++ (fraction ++ exponent)) ⟨whole, digits, power⟩

/-! ## Reading in stages -/

/-- The fraction at the head of a text: its point, its digits, and what follows. -/
def spanFraction (cs : List Char) : List Char × List Char × List Char :=
  match cs with
  | '.' :: tail => (['.'], tail.takeWhile Char.isDigit, tail.dropWhile Char.isDigit)
  | _ => ([], [], cs)

/-- The mark of an exponent at the head of a text, and what follows. -/
def spanMark (cs : List Char) : List Char × List Char :=
  match cs with
  | 'e' :: tail => (['e'], tail)
  | 'E' :: tail => (['E'], tail)
  | _ => ([], cs)

/-- The sign at the head of a text, and what follows. -/
def spanSign (cs : List Char) : List Char × List Char :=
  match cs with
  | '+' :: tail => (['+'], tail)
  | '-' :: tail => (['-'], tail)
  | _ => ([], cs)

/-- The exponent at the head of a text: as it stands there, its parts, and what follows. -/
def spanExponent (cs : List Char) : List Char × Option (Bool × List Char) × List Char :=
  let (mark, tail) := spanMark cs
  let (sign, tail) := spanSign tail
  let digits := tail.takeWhile Char.isDigit
  if mark = [] ∨ digits = [] then ([], none, cs)
  else (mark ++ sign ++ digits, some (sign = ['-'], digits), tail.dropWhile Char.isDigit)

theorem spanNumeral_eq (cs : List Char) :
    spanNumeral cs =
      let whole := cs.takeWhile Char.isDigit
      let (point, digits, rest) := spanFraction (cs.dropWhile Char.isDigit)
      let (exponent, power, rest) := spanExponent rest
      (whole ++ point ++ digits ++ exponent, ⟨whole, digits, power⟩, rest) := by
  have hstages : spanNumeral cs =
      let whole := cs.takeWhile Char.isDigit
      let (point, digits, rest) := spanFraction (cs.dropWhile Char.isDigit)
      let (mark, tail) := spanMark rest
      let (sign, tail) := spanSign tail
      let ds := tail.takeWhile Char.isDigit
      if mark = [] ∨ ds = [] then (whole ++ point ++ digits, ⟨whole, digits, none⟩, rest)
      else (whole ++ point ++ digits ++ mark ++ sign ++ ds,
        ⟨whole, digits, some (sign = ['-'], ds)⟩, tail.dropWhile Char.isDigit) := by
    simp only [spanNumeral, List.span_eq_takeWhile_dropWhile]
    rfl
  rw [hstages]
  simp only [spanExponent]
  split
  · simp
  · simp

/-! ## Written numbers -/

section Written

variable {w fraction exponent digits tail : List Char} {power : Option (Bool × List Char)}
  {n : Numeral}

theorem spanSign_of_isDigit {d : Char} (h : d.isDigit) (cs : List Char) :
    spanSign (d :: cs) = ([], d :: cs) := by
  unfold spanSign
  split
  · rename_i heq
    rw [(List.cons.inj heq).1] at h
    cases h
  · rename_i heq
    rw [(List.cons.inj heq).1] at h
    cases h
  · rfl

theorem spanSign_append {sign : List Char} (hsign : sign ∈ [[], ['+'], ['-']])
    (h : ∀ c ∈ digits, c.isDigit) (hne : digits ≠ []) (tail : List Char) :
    spanSign (sign ++ (digits ++ tail)) = (sign, digits ++ tail) := by
  simp only [List.mem_cons, List.not_mem_nil, or_false] at hsign
  rcases hsign with rfl | rfl | rfl
  · cases digits with
    | nil => exact absurd rfl hne
    | cons d ds => exact spanSign_of_isDigit (h d List.mem_cons_self) (ds ++ tail)
  · rfl
  · rfl

theorem spanMark_cons {mark : Char} (hmark : mark ∈ ['e', 'E']) (cs : List Char) :
    spanMark (mark :: cs) = ([mark], cs) := by
  simp only [List.mem_cons, List.not_mem_nil, or_false] at hmark
  rcases hmark with rfl | rfl <;> rfl

theorem spanExponent_append {mark : Char} {sign : List Char} (hmark : mark ∈ ['e', 'E'])
    (hsign : sign ∈ [[], ['+'], ['-']]) (h : ∀ c ∈ digits, c.isDigit) (hne : digits ≠ [])
    (tail : List Char) :
    spanExponent (mark :: (sign ++ (digits ++ tail))) =
      (mark :: (sign ++ (digits ++ tail.takeWhile Char.isDigit)),
        some (decide (sign = ['-']), digits ++ tail.takeWhile Char.isDigit),
        tail.dropWhile Char.isDigit) := by
  simp [spanExponent, spanMark_cons hmark, spanSign_append hsign h hne,
    List.takeWhile_append_of_pos h, List.dropWhile_append_of_pos h, hne]

theorem spanFraction_append (h : ∀ c ∈ digits, c.isDigit) (tail : List Char) :
    spanFraction ('.' :: (digits ++ tail)) =
      (['.'], digits ++ tail.takeWhile Char.isDigit, tail.dropWhile Char.isDigit) := by
  simp [spanFraction, List.takeWhile_append_of_pos h, List.dropWhile_append_of_pos h]

theorem isDigit_mark {mark : Char} (hmark : mark ∈ ['e', 'E']) : mark.isDigit = false := by
  simp only [List.mem_cons, List.not_mem_nil, or_false] at hmark
  rcases hmark with rfl | rfl <;> rfl

theorem spanFraction_mark {mark : Char} (hmark : mark ∈ ['e', 'E']) (cs : List Char) :
    spanFraction (mark :: cs) = ([], [], mark :: cs) := by
  simp only [List.mem_cons, List.not_mem_nil, or_false] at hmark
  rcases hmark with rfl | rfl <;> rfl

/-- Reading goes through whatever is written as a number, and perhaps beyond it. -/
theorem IsNumber.exists_span_append (h : IsNumber w n) (tail : List Char) :
    ∃ more, (spanNumeral (w ++ tail)).1 = w ++ more := by
  obtain ⟨hwhole, hfraction, hexponent, -⟩ := h
  rw [spanNumeral_eq, List.append_assoc, List.takeWhile_append_of_pos hwhole,
    List.dropWhile_append_of_pos hwhole]
  cases hexponent with
  | absent =>
      cases hfraction with
      | absent => simp
      | point hdigits => simp [spanFraction_append hdigits]
  | marked hmark hsign hpower hne =>
      cases hfraction with
      | absent =>
          simp [isDigit_mark hmark, spanFraction_mark hmark,
            spanExponent_append hmark hsign hpower hne]
      | point hdigits =>
          simp [isDigit_mark hmark, spanFraction_append hdigits,
            spanExponent_append hmark hsign hpower hne]

/-- A number by itself is read as it is written. -/
theorem IsNumber.spanNumeral_eq_self (h : IsNumber w n) : spanNumeral w = (w, n, []) := by
  obtain ⟨hwhole, hfraction, hexponent, -⟩ := h
  rw [spanNumeral_eq, List.takeWhile_append_of_pos hwhole, List.dropWhile_append_of_pos hwhole]
  cases hexponent with
  | absent =>
      cases hfraction with
      | absent => simp [spanFraction, spanExponent, spanMark]
      | point hdigits =>
          rename_i digits
          have hfraction : spanFraction ('.' :: digits) = (['.'], digits, []) := by
            simpa using spanFraction_append hdigits []
          simp [spanExponent, spanMark, hfraction]
  | @marked mark sign digits hmark hsign hpower hne =>
      have hexponent : spanExponent (mark :: (sign ++ digits)) =
          (mark :: (sign ++ digits), some (decide (sign = ['-']), digits), []) := by
        simpa using spanExponent_append hmark hsign hpower hne []
      cases hfraction with
      | absent =>
          simp [isDigit_mark hmark, spanFraction_mark hmark, hexponent]
      | point hdigits =>
          simp [isDigit_mark hmark, spanFraction_append hdigits, hexponent]

/-! ## What is read -/

theorem isDigit_of_mem_takeWhile (cs : List Char) :
    ∀ c ∈ cs.takeWhile Char.isDigit, c.isDigit := fun _ hc => List.mem_takeWhile_imp hc

theorem spanFraction_sound (cs : List Char) :
    ∃ point digits rest, spanFraction cs = (point, digits, rest) ∧
      IsFraction (point ++ digits) digits ∧ point ++ digits ++ rest = cs := by
  unfold spanFraction
  split
  · rename_i tail
    exact ⟨_, _, _, rfl, .point (isDigit_of_mem_takeWhile tail), by simp⟩
  · exact ⟨_, _, _, rfl, .absent, rfl⟩

theorem spanMark_sound (cs : List Char) :
    ∃ mark tail, spanMark cs = (mark, tail) ∧ mark ++ tail = cs ∧
      (mark = [] ∨ ∃ c ∈ ['e', 'E'], mark = [c]) := by
  unfold spanMark
  split
  · exact ⟨_, _, rfl, rfl, .inr ⟨'e', by simp, rfl⟩⟩
  · exact ⟨_, _, rfl, rfl, .inr ⟨'E', by simp, rfl⟩⟩
  · exact ⟨_, _, rfl, rfl, .inl rfl⟩

theorem spanSign_sound (cs : List Char) :
    ∃ sign tail, spanSign cs = (sign, tail) ∧ sign ++ tail = cs ∧
      sign ∈ [[], ['+'], ['-']] := by
  unfold spanSign
  split
  · exact ⟨_, _, rfl, rfl, by simp⟩
  · exact ⟨_, _, rfl, rfl, by simp⟩
  · exact ⟨_, _, rfl, rfl, by simp⟩

theorem spanExponent_sound (cs : List Char) :
    ∃ exponent power rest, spanExponent cs = (exponent, power, rest) ∧
      IsExponent exponent power ∧ exponent ++ rest = cs := by
  obtain ⟨mark, tail, hspan, rfl, hmark⟩ := spanMark_sound cs
  obtain ⟨sign, tail, hspan', rfl, hsign⟩ := spanSign_sound tail
  simp only [spanExponent, hspan, hspan']
  split
  · exact ⟨_, _, _, rfl, .absent, rfl⟩
  · rename_i hne
    obtain ⟨hmarked, hdigits⟩ := not_or.mp hne
    obtain ⟨c, hc, rfl⟩ := hmark.resolve_left hmarked
    exact ⟨_, _, _, rfl, .marked hc hsign (isDigit_of_mem_takeWhile tail) hdigits, by simp⟩

/-- What is read of a text that begins with a digit or a point is written as a number. -/
theorem exists_isNumber_span {c : Char} (cs : List Char) (h : c.isDigit ∨ c = '.') :
    ∃ w n rest, spanNumeral (c :: cs) = (w, n, rest) ∧ IsNumber w n ∧ w ++ rest = c :: cs := by
  obtain ⟨point, digits, tail, hspan, hfraction, htail⟩ :=
    spanFraction_sound ((c :: cs).dropWhile Char.isDigit)
  obtain ⟨exponent, power, rest, hspan', hexponent, rfl⟩ := spanExponent_sound tail
  have hne : (c :: cs).takeWhile Char.isDigit ++ (point ++ digits) ≠ [] := by
    rcases h with hdigit | rfl
    · simp [hdigit]
    · have hpoint : point = ['.'] := (congrArg Prod.fst hspan).symm
      simp [hpoint]
  refine ⟨_, _, rest, ?_, .intro (isDigit_of_mem_takeWhile (c :: cs)) hfraction hexponent hne, ?_⟩
  · rw [spanNumeral_eq, hspan]
    simp only [hspan', List.append_assoc]
  · rw [List.append_assoc, List.append_assoc, htail, List.takeWhile_append_dropWhile]

example : spanNumeral "2e+".toList = (['2'], ⟨['2'], [], none⟩, ['e', '+']) := by decide

theorem IsNumber.exists_cons (h : IsNumber w n) :
    ∃ c cs, w = c :: cs ∧ (c.isDigit ∨ c = '.') := by
  obtain ⟨hwhole, hfraction, -, hne⟩ := h
  rename_i whole fraction exponent digits power
  cases whole with
  | cons c whole => exact ⟨c, _, rfl, .inl (hwhole c List.mem_cons_self)⟩
  | nil =>
      cases hfraction with
      | absent => exact absurd rfl hne
      | point => exact ⟨'.', _, rfl, .inr rfl⟩

theorem toLower_of_isDigit {c : Char} (h : c.isDigit) : c.toLower = c := by
  simp only [Char.isDigit, Bool.and_eq_true, decide_eq_true_eq] at h
  unfold Char.toLower
  split
  · grind
  · rfl

/-- No name and no sign begins with a digit or a point. -/
theorem ne_of_beginsUnsigned {c d : Char} (hc : c.isDigit ∨ c = '.')
    (hd : d ∈ ['-', '+', 'i', 'n']) : c ≠ d := by
  rintro rfl
  simp only [List.mem_cons, List.not_mem_nil, or_false] at hd
  rcases hc with hdigit | rfl
  · rcases hd with rfl | rfl | rfl | rfl <;> cases hdigit
  · rcases hd with hd | hd | hd | hd <;> cases hd

/-- The text of a number without a sign is read by the notation of its parts. -/
theorem IsNumber.readMagnitude?_eq (h : IsNumber w n) :
    readMagnitude? w = n.value?.map Decimal.toFloat := by
  obtain ⟨c, cs, rfl, hc⟩ := h.exists_cons
  have hlower : c.toLower = c := by
    rcases hc with hdigit | rfl
    · exact toLower_of_isDigit hdigit
    · rfl
  -- The names of infinity and of no number begin with letters.
  have hname : ∀ name : String, name.toList.head? = some 'i' ∨ name.toList.head? = some 'n' →
      String.ofList ((c :: cs).map Char.toLower) ≠ name := by
    rintro name hhead rfl
    simp [hlower, ne_of_beginsUnsigned hc] at hhead
  rw [readMagnitude?]
  simp only [hname "inf" (.inl rfl), hname "infinity" (.inl rfl), hname "nan" (.inr rfl), or_self,
    ↓reduceIte, h.spanNumeral_eq_self]

/-- The text of a number is read as a floating-point number by the notation of its parts. -/
theorem IsNumber.readFloat?_eq (h : IsNumber w n) :
    readFloat? (String.ofList w) = n.value?.map Decimal.toFloat := by
  rw [← h.readMagnitude?_eq]
  obtain ⟨c, cs, rfl, hc⟩ := h.exists_cons
  rw [readFloat?, String.toList_ofList]
  split
  · rename_i heq
    exact absurd (List.cons.inj heq).1 (ne_of_beginsUnsigned hc (by simp))
  · rename_i heq
    exact absurd (List.cons.inj heq).1 (ne_of_beginsUnsigned hc (by simp))
  · rfl

theorem Numeral.value?_eq_none_iff : n.value? = none ↔ n.whole = [] ∧ n.fraction = [] := by
  unfold value?
  split
  · rename_i h
    exact iff_of_true rfl h
  · rename_i h
    exact iff_of_false nofun h

end Written

end DefiniteIntegral
