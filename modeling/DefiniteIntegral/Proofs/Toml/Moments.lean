import DefiniteIntegral.Proofs.Toml.Digits

/-! # Dates and times of day

What is written as a day or a time of day is recognized as that. -/

namespace DefiniteIntegral.Toml

/-! ## Digits in a fixed number -/

theorem length_padded (places n : ℕ) : (padded places n).length = places := by
  induction places generalizing n with
  | zero => rfl
  | succ places ih => simp [padded, ih]

theorem isDigit_of_mem_padded {places n : ℕ} : ∀ c ∈ padded places n, c.isDigit := by
  induction places generalizing n with
  | zero => exact nofun
  | succ places ih =>
      intro c hc
      rcases List.mem_append.mp hc with hc | hc
      · exact ih c hc
      · have hall : ∀ d : Fin 10, d.val.digitChar.isDigit := by decide
        rw [List.mem_singleton.mp hc]
        exact hall ⟨n % 10, Nat.mod_lt n (by decide)⟩

theorem valueOfDigits_padded {places n : ℕ} (h : n < 10 ^ places) :
    valueOfDigits (padded places n) = n := by
  induction places generalizing n with
  | zero =>
      obtain rfl : n = 0 := by omega
      rfl
  | succ places ih =>
      have hall : ∀ d : Fin 10, d.val.digitChar.toNat - '0'.toNat = d.val := by decide
      have hdigit : (n % 10).digitChar.toNat - '0'.toNat = n % 10 :=
        hall ⟨n % 10, Nat.mod_lt n (by decide)⟩
      have hlater := ih (n := n / 10) (by rw [pow_succ] at h; omega)
      rw [padded, valueOfDigits, List.foldl_append, ← valueOfDigits, hlater, List.foldl_cons,
        List.foldl_nil, hdigit]
      omega

theorem padded_two_eq (n : ℕ) : ∃ a b, padded 2 n = [a, b] :=
  ⟨_, _, rfl⟩

theorem twoDigits?_padded {n : ℕ} {a b : Char} (bound : ℕ) (hn : n < 100) (h : n ≤ bound)
    (hpadded : padded 2 n = [a, b]) : twoDigits? bound a b = some n := by
  have hdigits : ∀ c ∈ [a, b], c.isDigit := hpadded ▸ isDigit_of_mem_padded
  have hvalue : valueOfDigits [a, b] = n := hpadded ▸ valueOfDigits_padded hn
  rw [twoDigits?, hvalue, if_pos ⟨hdigits a (by simp), hdigits b (by simp), h⟩]

/-! ## Parts of a moment -/

variable {cs day time zone : List Char}

theorem IsDay.isDate (h : IsDay cs) : isDate cs := by
  obtain @⟨year, month, day, hyear, hmonth, hday⟩ := h
  obtain ⟨a, b, c, d, hyears⟩ : ∃ a b c d, padded 4 year = [a, b, c, d] := ⟨_, _, _, _, rfl⟩
  obtain ⟨e, f, hmonths⟩ := padded_two_eq month
  obtain ⟨g, k, hdays⟩ := padded_two_eq day
  have hdigits : ∀ x ∈ [a, b, c, d], x.isDigit := by
    rw [← hyears]
    exact isDigit_of_mem_padded
  have hvalue : valueOfDigits [a, b, c, d] = year := hyears ▸ valueOfDigits_padded hyear
  have hlast : daysOfMonth year month ≤ 31 := by
    rw [daysOfMonth]
    split_ifs <;> decide
  have hmonth? := twoDigits?_padded 12 (by omega) hmonth.2 hmonths
  have hday? := twoDigits?_padded 31 (by omega) (by omega) hdays
  rw [hyears, hmonths, hdays]
  simp [isDate, hmonth?, hday?, hvalue, hmonth.1, hday, hdigits]

theorem IsDay.length_eq (h : IsDay cs) : cs.length = 10 := by
  obtain ⟨hyear, hmonth, hday⟩ := h
  simp [length_padded]

theorem IsClock.isHourMinute (h : IsClock cs) : isHourMinute cs := by
  obtain @⟨hour, minute, hhour, hminute⟩ := h
  obtain ⟨a, b, hhours⟩ := padded_two_eq hour
  obtain ⟨c, d, hminutes⟩ := padded_two_eq minute
  have hhour? := twoDigits?_padded 23 (by omega) (by omega) hhours
  have hminute? := twoDigits?_padded 59 (by omega) (by omega) hminutes
  simp [hhours, hminutes, Toml.isHourMinute, hhour?, hminute?]

theorem IsClock.exists_eq (h : IsClock cs) : ∃ a b c d, cs = [a, b, ':', c, d] := by
  obtain ⟨hhour, hminute⟩ := h
  exact ⟨_, _, _, _, rfl⟩

/-- An offset begins with neither a point nor a digit. -/
theorem IsZone.head?_ne (h : IsZone zone) : ∀ c ∈ zone.head?, c ≠ '.' ∧ c.isDigit = false := by
  cases h with
  | absent => exact nofun
  | universal hmark =>
      rintro c ⟨⟩
      simp only [List.mem_cons, List.not_mem_nil, or_false] at hmark
      rcases hmark with rfl | rfl <;> decide
  | offset hsign =>
      rintro c ⟨⟩
      simp only [List.mem_cons, List.not_mem_nil, or_false] at hsign
      rcases hsign with rfl | rfl <;> decide

theorem IsZone.isOffset (h : IsZone zone) : isOffset zone := by
  cases h with
  | absent => rfl
  | universal hmark =>
      simp only [List.mem_cons, List.not_mem_nil, or_false] at hmark
      rcases hmark with rfl | rfl <;> rfl
  | offset hsign hclock =>
      simp only [List.mem_cons, List.not_mem_nil, or_false] at hsign
      rcases hsign with rfl | rfl <;> exact hclock.isHourMinute

/-- What follows a time of day is left. -/
theorem IsTime.afterTime?_append (h : IsTime time)
    (hzone : ∀ c ∈ zone.head?, c ≠ '.' ∧ c.isDigit = false) :
    afterTime? (time ++ zone) = some zone := by
  cases h with
  | @whole clock second hclock hsecond =>
      have hclock' := hclock.isHourMinute
      obtain ⟨a, b, c, d, rfl⟩ := hclock.exists_eq
      obtain ⟨e, f, hseconds⟩ := padded_two_eq second
      have hsecond? := twoDigits?_padded 60 (by omega) hsecond hseconds
      simp only [hseconds, List.cons_append, List.nil_append, afterTime?, hclock', hsecond?,
        Option.isSome_some, and_self, ↓reduceIte]
      split
      · exact absurd rfl (hzone '.' rfl).1
      · rfl
  | @parts clock digits second hclock hsecond hdigits hne =>
      have hclock' := hclock.isHourMinute
      obtain ⟨a, b, c, d, rfl⟩ := hclock.exists_eq
      obtain ⟨e, f, hseconds⟩ := padded_two_eq second
      have hsecond? := twoDigits?_padded 60 (by omega) hsecond hseconds
      have hspan := takeWhile_dropWhile_append hdigits fun c hc => (hzone c hc).2
      simp only [hseconds, List.cons_append, List.nil_append, afterTime?, hclock', hsecond?,
        Option.isSome_some, and_self, ↓reduceIte]
      rw [hspan.1, hspan.2, if_neg hne]

theorem IsTime.isTimeWithOffset_append (h : IsTime time) (hzone : IsZone zone) :
    isTimeWithOffset (time ++ zone) := by
  rw [isTimeWithOffset, h.afterTime?_append hzone.head?_ne]
  exact hzone.isOffset

/-- A day, a time of day or both without a blank are recognized. -/
theorem isMoment_append {mark : Char} (hmark : mark ∈ ['T', 't']) (hday : IsDay day)
    (htime : IsTime time) (hzone : IsZone zone) : isMoment (day ++ mark :: (time ++ zone)) := by
  have hlength := hday.length_eq
  have hboth := htime.isTimeWithOffset_append hzone
  simp only [List.mem_cons, List.not_mem_nil, or_false] at hmark
  rcases hmark with rfl | rfl <;>
    simp [isMoment, hlength, hday.isDate, hboth]

theorem IsDay.isMoment (h : IsDay cs) : isMoment cs := by
  simp [Toml.isMoment, h.isDate]

theorem IsTime.isMoment (h : IsTime cs) : isMoment cs := by
  have hafter : afterTime? (cs ++ []) = some [] := h.afterTime?_append nofun
  rw [List.append_nil] at hafter
  simp [Toml.isMoment, hafter]

/-! ## Their characters -/

theorem isWordCharacter_of_isDigit {c : Char} (h : c.isDigit) : isWordCharacter c := by
  simp [isWordCharacter, Char.isAlphanum, h]

theorem isWordCharacter_padded {places n : ℕ} : ∀ c ∈ padded places n, isWordCharacter c :=
  fun c hc => isWordCharacter_of_isDigit (isDigit_of_mem_padded c hc)

theorem IsDay.isWordCharacter (h : IsDay cs) : ∀ c ∈ cs, isWordCharacter c := by
  obtain ⟨hyear, hmonth, hday⟩ := h
  simp only [List.forall_mem_append, List.forall_mem_cons]
  exact ⟨isWordCharacter_padded, rfl, isWordCharacter_padded, rfl, isWordCharacter_padded⟩

theorem IsClock.isWordCharacter (h : IsClock cs) : ∀ c ∈ cs, isWordCharacter c := by
  obtain ⟨hhour, hminute⟩ := h
  simp only [List.forall_mem_append, List.forall_mem_cons]
  exact ⟨isWordCharacter_padded, rfl, isWordCharacter_padded⟩

theorem IsTime.isWordCharacter (h : IsTime cs) : ∀ c ∈ cs, isWordCharacter c := by
  cases h with
  | whole hclock =>
      simp only [List.forall_mem_append, List.forall_mem_cons]
      exact ⟨hclock.isWordCharacter, rfl, isWordCharacter_padded⟩
  | parts hclock _ hdigits =>
      simp only [List.forall_mem_append, List.forall_mem_cons]
      exact ⟨hclock.isWordCharacter, rfl, isWordCharacter_padded, rfl,
        fun c hc => isWordCharacter_of_isDigit (hdigits c hc)⟩

theorem IsZone.isWordCharacter (h : IsZone cs) : ∀ c ∈ cs, isWordCharacter c := by
  cases h with
  | absent => exact nofun
  | universal hmark =>
      simp only [List.mem_cons, List.not_mem_nil, or_false] at hmark
      rcases hmark with rfl | rfl <;> exact List.all_eq_true.mp rfl
  | offset hsign hclock =>
      simp only [List.mem_cons, List.not_mem_nil, or_false] at hsign
      refine List.forall_mem_cons.mpr ⟨?_, hclock.isWordCharacter⟩
      rcases hsign with rfl | rfl <;> rfl

/-! ## Their first characters -/

theorem exists_cons_padded (places n : ℕ) (later : List Char) :
    ∃ c tail, padded (places + 1) n ++ later = c :: tail ∧ c.isDigit := by
  have hlength := length_padded (places + 1) n
  have hdigits : ∀ c ∈ padded (places + 1) n, c.isDigit := isDigit_of_mem_padded
  generalize padded (places + 1) n = cs at hlength hdigits
  rcases cs with - | ⟨c, tail⟩
  · exact absurd hlength (by simp)
  · exact ⟨c, tail ++ later, rfl, hdigits c List.mem_cons_self⟩

theorem IsDay.exists_cons (h : IsDay cs) (later : List Char) :
    ∃ c tail, cs ++ later = c :: tail ∧ c.isDigit := by
  obtain ⟨hyear, hmonth, hday⟩ := h
  rw [List.append_assoc]
  exact exists_cons_padded 3 _ _

theorem IsClock.exists_cons (h : IsClock cs) (later : List Char) :
    ∃ c tail, cs ++ later = c :: tail ∧ c.isDigit := by
  obtain ⟨hhour, hminute⟩ := h
  rw [List.append_assoc]
  exact exists_cons_padded 1 _ _

/-- A day or a time of day begins with a digit. -/
theorem IsTimestamp.exists_cons (h : IsTimestamp cs) : ∃ c tail, cs = c :: tail ∧ c.isDigit := by
  cases h with
  | day h => simpa using h.exists_cons []
  | time h =>
      cases h with
      | whole hclock => exact hclock.exists_cons _
      | parts hclock => exact hclock.exists_cons _
  | both _ hday => exact hday.exists_cons _

end DefiniteIntegral.Toml
