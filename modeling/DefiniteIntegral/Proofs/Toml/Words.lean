import DefiniteIntegral.Proofs.Toml.Moments
import DefiniteIntegral.Proofs.Toml.Spaces
import Mathlib.Data.List.Chain

/-! # Values of one word

What is written as a number, a truth value, a day or a time of day is read as that, wherever a value
can end. -/

namespace DefiniteIntegral.Toml

variable {cs digits rest sign : List Char} {c : Char} {value : Value}

/-! ## Numbers are no dates -/

/-- No digit is followed by a dash. -/
def IsUndashed (cs : List Char) : Prop :=
  cs.IsChain fun c d => ¬ (c.isDigit ∧ d = '-')

theorem isUndashed_of_not_mem (h : '-' ∉ cs) : IsUndashed cs := by
  induction cs with
  | nil => exact .nil
  | cons c cs ih =>
      have hcs : '-' ∉ cs := fun hmem => h (List.mem_cons_of_mem c hmem)
      refine List.isChain_cons.mpr ⟨?_, ih hcs⟩
      rintro d hd ⟨-, rfl⟩
      exact hcs (List.mem_of_head? hd)

theorem IsUndashed.append {later : List Char} (h : IsUndashed cs) (hlater : IsUndashed later)
    (hhead : later.head? ≠ some '-') : IsUndashed (cs ++ later) := by
  refine List.isChain_append.mpr ⟨h, hlater, ?_⟩
  rintro c - d hd ⟨-, rfl⟩
  exact hhead hd

theorem IsUndashed.sign_append (h : IsUndashed cs) (hsign : sign ∈ signs) :
    IsUndashed (sign ++ cs) := by
  simp only [signs, List.mem_cons, List.not_mem_nil, or_false] at hsign
  rcases hsign with rfl | rfl | rfl
  · exact h
  · exact List.isChain_cons.mpr ⟨by simp, h⟩
  · exact List.isChain_cons.mpr ⟨by simp, h⟩

theorem IsUndashed.isDate_eq (h : IsUndashed cs) : isDate cs = false := by
  unfold isDate
  split
  · have hd := (List.isChain_cons.mp ((h.tail).tail.tail)).1 '-' rfl
    simp at hd
    simp [hd]
  · rfl

theorem afterTime?_eq_none (h : ':' ∉ cs) : afterTime? cs = none := by
  unfold afterTime?
  split
  · simp at h
  · rfl

/-- A word without colons in which no digit is followed by a dash is no moment. -/
theorem IsUndashed.isMoment_eq (h : IsUndashed cs) (hcolon : ':' ∉ cs) : isMoment cs = false := by
  have htake : IsUndashed (cs.take 10) := List.IsChain.take h 10
  simp [isMoment, h.isDate_eq, htake.isDate_eq, afterTime?_eq_none hcolon]

/-! ## The characters of a number -/

theorem isAlphanum_of_hexValue? {d : ℕ} (h : hexValue? c = some d) : c.isAlphanum := by
  unfold hexValue? at h
  split at h
  · rename_i hdigit
    exact Bool.or_inr hdigit
  split at h
  · rename_i hlower
    have hletter : c.isLower :=
      (Bool.and_eq_true _ _).mpr ⟨decide_eq_true hlower.1,
        decide_eq_true (UInt32.le_trans hlower.2 (by decide))⟩
    exact Bool.or_inl (Bool.or_inr hletter)
  split at h
  · rename_i hupper
    have hletter : c.isUpper :=
      decide_eq_true ⟨hupper.1, UInt32.le_trans hupper.2 (by decide)⟩
    exact Bool.or_inl (Bool.or_inl hletter)
  · cases h

/-- A number is written in digits, underscores, letters and signs. -/
theorem IsInteger.mem {n : ℤ} (h : IsInteger cs n) :
    ∀ c ∈ cs, c.isAlphanum ∨ c ∈ ['_', '+', '-'] := by
  cases h with
  | decimal hsign h =>
      refine mem_sign_append hsign (by simp) (by simp) fun c hc => ?_
      rcases isGrouped_class h.grouped h.isDigit c hc with hdigit | rfl
      · exact Or.inl (by simp [Char.isAlphanum, hdigit])
      · exact Or.inr (by simp)
  | based hmark hgrouped h =>
      refine List.forall_mem_cons.mpr ⟨Or.inl rfl, List.forall_mem_cons.mpr ⟨?_, ?_⟩⟩
      · simp only [baseMarks, List.mem_cons, List.not_mem_nil, or_false, Prod.mk.injEq] at hmark
        rcases hmark with ⟨rfl, -⟩ | ⟨rfl, -⟩ | ⟨rfl, -⟩ <;> exact Or.inl rfl
      · intro c hc
        rcases hgrouped.mem_or_eq hc with hmem | rfl
        · obtain ⟨d, -, hvalue⟩ := h.exists_value hmem
          exact Or.inl (isAlphanum_of_hexValue? hvalue)
        · exact Or.inr (by simp)

theorem IsReal.mem {n : Numeral} (h : IsReal cs n) :
    ∀ c ∈ cs, c.isDigit ∨ c ∈ ['_', '.', 'e', 'E', '+', '-'] := by
  obtain ⟨hwhole, hplaces, hpower, -⟩ := h
  have hdigits {cs digits : List Char} (h : IsGrouped cs digits)
      (hdigits : ∀ c ∈ digits, c.isDigit) :
      ∀ c ∈ cs, c.isDigit ∨ c ∈ ['_', '.', 'e', 'E', '+', '-'] := fun c hc => by
    refine (isGrouped_class h hdigits c hc).imp_right ?_
    rintro rfl
    simp
  rw [List.forall_mem_append, List.forall_mem_append]
  refine ⟨hdigits hwhole.grouped hwhole.isDigit, ?_, ?_⟩
  · cases hplaces with
    | absent => exact nofun
    | point hgrouped h => exact List.forall_mem_cons.mpr ⟨Or.inr (by simp), hdigits hgrouped h⟩
  · cases hpower with
    | absent => exact nofun
    | marked hmark hsign hgrouped h =>
        refine List.forall_mem_cons.mpr ⟨Or.inr ?_, ?_⟩
        · simp at hmark ⊢
          tauto
        · exact mem_sign_append hsign (by simp) (by simp) (hdigits hgrouped h)

theorem IsReal.exists_cons {n : Numeral} (h : IsReal cs n) :
    ∃ c tail, cs = c :: tail ∧ c.isDigit := by
  obtain ⟨hwhole, -⟩ := h
  obtain ⟨c, tail, rfl, hc⟩ := hwhole.exists_cons
  exact ⟨c, _, rfl, hc⟩

theorem IsReal.isUndashed {n : Numeral} (h : IsReal cs n) : IsUndashed cs := by
  obtain ⟨hwhole, hplaces, hpower, -⟩ := h
  have hgroup {cs digits : List Char} (h : IsGrouped cs digits)
      (hdigits : ∀ c ∈ digits, c.isDigit) : '-' ∉ cs := h.not_mem hdigits rfl (by decide)
  have hexponent {power : Option (Bool × List Char)} {cs : List Char} (h : IsPower cs power) :
      cs.head? ≠ some '-' := fun hhead => by
    cases h.head?_eq '-' hhead
  refine (isUndashed_of_not_mem (hgroup hwhole.grouped hwhole.isDigit)).append ?_ ?_
  · refine IsUndashed.append ?_ ?_ ?_
    · cases hplaces with
      | absent => exact isUndashed_of_not_mem (by simp)
      | point hgrouped h => exact isUndashed_of_not_mem (by simp [hgroup hgrouped h])
    · cases hpower with
      | absent => exact isUndashed_of_not_mem (by simp)
      | marked hmark hsign hgrouped h =>
          have hlater := (isUndashed_of_not_mem (hgroup hgrouped h)).sign_append hsign
          refine List.isChain_cons.mpr ⟨fun d _ hd => ?_, hlater⟩
          simp only [List.mem_cons, List.not_mem_nil, or_false] at hmark
          rcases hmark with rfl | rfl <;> cases hd.1
    · exact hexponent hpower
  · cases hplaces with
    | absent => exact hexponent hpower
    | point => simp

/-! ## Floating-point numbers -/

theorem IsMagnitude.head?_class {negative : Bool} {x : Float} (h : IsMagnitude negative cs x) :
    ∀ c ∈ cs.head?, c.isDigit ∨ c ∈ ['i', 'n'] := by
  cases h with
  | real h =>
      obtain ⟨c, tail, rfl, hc⟩ := h.exists_cons
      rintro d ⟨⟩
      exact Or.inl hc
  | infinity | undefined =>
      rintro c ⟨⟩
      exact Or.inr (by simp)

theorem IsMagnitude.head?_ne {negative : Bool} {x : Float} (h : IsMagnitude negative cs x) :
    ∀ c ∈ cs.head?, c ≠ '-' ∧ c ≠ '+' := by
  intro c hc
  rcases h.head?_class c hc with hdigit | hletter
  · exact ne_sign_of_isDigit hdigit
  · simp only [List.mem_cons, List.not_mem_nil, or_false] at hletter
    rcases hletter with rfl | rfl <;> decide

theorem IsMagnitude.float?_eq {x : Float} (hsign : sign ∈ signs)
    (h : IsMagnitude (sign = ['-']) cs x) :
    float? (sign ++ cs) = some (if sign = ['-'] then -x else x) := by
  rw [float?, splitSign_append hsign h.head?_ne]
  cases h with
  | @real _ n d h hvalue hfinite =>
      have hname : cs ≠ ['i', 'n', 'f'] ∧ cs ≠ ['n', 'a', 'n'] := by
        obtain ⟨c, tail, rfl, hc⟩ := h.exists_cons
        constructor <;> (rintro ⟨⟩; cases hc)
      simp only [hname, ↓reduceIte, h.numeral?_eq, Option.bind_eq_bind, Option.bind_some, hvalue]
      rw [if_neg]
      · simp
      · rintro ⟨hinf, hnegative⟩
        rw [hfinite hinf] at hnegative
        cases hnegative
  | infinity => simp
  | undefined => simp

/-- What has a character that no whole number has is none. -/
theorem integer?_eq_none (hsign : sign ∈ signs) (hhead : ∀ c ∈ cs.head?, c ≠ '-' ∧ c ≠ '+')
    (hbases : ∀ mark ∈ ['x', 'o', 'b'], mark ∉ sign ++ cs) (hc : c ∈ cs)
    (hdigit : c.isDigit = false) (hmark : c ≠ '_') : integer? (sign ++ cs) = none := by
  have hletter {mark : Char} (hmark : mark ∈ ['x', 'o', 'b']) (later : List Char) :
      sign ++ cs ≠ '0' :: mark :: later := fun heq =>
    hbases mark hmark (heq ▸ List.mem_cons_of_mem _ List.mem_cons_self)
  have hdecimal : decimalDigits? cs = none := by
    unfold decimalDigits?
    split
    · rfl
    · exact ungroup?_eq_none hc hdigit hmark
  rw [integer?, splitSign_append hsign hhead]
  · simp [hdecimal]
  · exact fun later => hletter (by decide) later
  · exact fun later => hletter (by decide) later
  · exact fun later => hletter (by decide) later

theorem IsMagnitude.mem {negative : Bool} {x : Float} (h : IsMagnitude negative cs x) :
    ∀ c ∈ cs, c.isDigit ∨ c ∈ ['_', '.', 'e', 'E', '+', '-', 'i', 'n', 'f', 'a'] := by
  cases h with
  | real h =>
      refine fun c hc => (h.mem c hc).imp_right fun hmark => ?_
      simp only [List.mem_cons, List.not_mem_nil, or_false] at hmark ⊢
      tauto
  | infinity => simp
  | undefined => simp

/-- A magnitude has a character that no whole number has. -/
theorem IsMagnitude.exists_mem {negative : Bool} {x : Float} (h : IsMagnitude negative cs x) :
    ∃ c ∈ cs, c.isDigit = false ∧ c ≠ '_' := by
  cases h with
  | real h =>
      obtain ⟨-, hplaces, hpower, hne⟩ := h
      cases hplaces with
      | point => exact ⟨'.', by simp, rfl, by decide⟩
      | absent =>
          cases hpower with
          | absent => exact absurd rfl hne
          | @marked mark _ _ _ hmark =>
              refine ⟨mark, by simp, ?_⟩
              simp only [List.mem_cons, List.not_mem_nil, or_false] at hmark
              rcases hmark with rfl | rfl <;> exact ⟨rfl, by decide⟩
  | infinity => exact ⟨'i', by simp, rfl, by decide⟩
  | undefined => exact ⟨'n', by simp, rfl, by decide⟩

theorem IsMagnitude.integer?_eq {negative : Bool} {x : Float} (h : IsMagnitude negative cs x)
    (hsign : sign ∈ signs) : integer? (sign ++ cs) = none := by
  obtain ⟨c, hc, hdigit, hmark⟩ := h.exists_mem
  refine integer?_eq_none hsign h.head?_ne (fun mark hmark hmem => ?_) hc hdigit hmark
  have hclass := mem_sign_append hsign (by simp) (by simp) h.mem mark hmem
  simp only [List.mem_cons, List.not_mem_nil, or_false] at hmark
  rcases hmark with rfl | rfl | rfl <;> simp at hclass

theorem IsMagnitude.isUndashed {negative : Bool} {x : Float} (h : IsMagnitude negative cs x) :
    IsUndashed cs := by
  cases h with
  | real h => exact h.isUndashed
  | infinity => exact isUndashed_of_not_mem (by simp)
  | undefined => exact isUndashed_of_not_mem (by simp)

theorem IsInteger.isUndashed {n : ℤ} (h : IsInteger cs n) : IsUndashed cs := by
  cases h with
  | decimal hsign h =>
      have hdash : '-' ∉ _ := h.grouped.not_mem h.isDigit rfl (by decide)
      exact (isUndashed_of_not_mem hdash).sign_append hsign
  | @based _ _ _ cs _ hmark hgrouped h =>
      refine isUndashed_of_not_mem fun hmem => ?_
      simp only [baseMarks, List.mem_cons, List.not_mem_nil, or_false, Prod.mk.injEq] at hmark
      have htail : '-' ∈ cs := by
        rcases hmark with ⟨rfl, -⟩ | ⟨rfl, -⟩ | ⟨rfl, -⟩ <;> simpa using hmem
      obtain ⟨d, -, hvalue⟩ := h.exists_value
        ((hgrouped.mem_or_eq htail).resolve_right (by decide : '-' ≠ '_'))
      cases hvalue

/-! ## Words -/

theorem head?_sign_append {p : Char → Prop} (hsign : sign ∈ signs) (hplus : p '+')
    (hminus : p '-') (hcs : ∀ c ∈ cs.head?, p c) : ∀ c ∈ (sign ++ cs).head?, p c := by
  simp only [signs, List.mem_cons, List.not_mem_nil, or_false] at hsign
  rcases hsign with rfl | rfl | rfl
  · exact hcs
  · rintro c ⟨⟩
    exact hplus
  · rintro c ⟨⟩
    exact hminus

theorem ne_letter_of_isDigit (h : c.isDigit) : c ∉ ['t', 'f'] := by
  intro hc
  simp only [List.mem_cons, List.not_mem_nil, or_false] at hc
  rcases hc with rfl | rfl <;> cases h

theorem IsInteger.head?_ne {n : ℤ} (h : IsInteger cs n) : ∀ c ∈ cs.head?, c ∉ ['t', 'f'] := by
  cases h with
  | decimal hsign h =>
      obtain ⟨c, tail, rfl, hc⟩ := h.exists_cons
      refine head?_sign_append hsign (by decide) (by decide) ?_
      rintro d ⟨⟩
      exact ne_letter_of_isDigit hc
  | based =>
      rintro c ⟨⟩
      decide

theorem IsMagnitude.head?_not_mem {negative : Bool} {x : Float} (h : IsMagnitude negative cs x) :
    ∀ c ∈ cs.head?, c ∉ ['t', 'f'] := by
  intro c hc
  rcases h.head?_class c hc with hdigit | hletter
  · exact ne_letter_of_isDigit hdigit
  · simp only [List.mem_cons, List.not_mem_nil, or_false] at hletter
    rcases hletter with rfl | rfl <;> decide

/-- A word that begins like neither truth value is a moment or a number. -/
theorem wordValue?_of_head?_ne (h : ∀ c ∈ cs.head?, c ∉ ['t', 'f']) :
    wordValue? cs = if isMoment cs then some (.datetime (String.ofList cs)) else
      match integer? cs with
      | some n => some (.integer n)
      | none => (float? cs).map .float := by
  have hnames : cs ≠ ['t', 'r', 'u', 'e'] ∧ cs ≠ ['f', 'a', 'l', 's', 'e'] := by
    constructor <;> (rintro rfl; exact h _ rfl (by decide))
  rw [wordValue?, if_neg hnames.1]
  exact if_neg hnames.2

/-- No word goes on where a value can end. -/
theorem Ends.isWordCharacter_eq (h : Ends cs) (hc : c ∈ cs.head?) : isWordCharacter c = false := by
  have hmark := h.mem_of_head? hc
  simp only [List.mem_cons, List.not_mem_nil, or_false] at hmark
  rcases hmark with rfl | rfl | rfl | rfl | rfl | rfl | rfl | rfl <;> rfl

theorem Ends.takeWhile_eq (h : Ends (' ' :: cs)) : cs.takeWhile isWordCharacter = [] := by
  rcases cs with - | ⟨c, cs⟩
  · rfl
  · have hlater : Ends (c :: cs) := h
    rw [List.takeWhile_cons_of_neg (by simp [hlater.isWordCharacter_eq (c := c) rfl])]

/-- A word is read to its end, if a value can end there. -/
theorem readScalar_append (hword : ∀ c ∈ cs, isWordCharacter c)
    (hvalue : wordValue? cs = some value) (hrest : Ends rest) :
    readScalar (cs ++ rest) = some (value, rest) := by
  have hspan := takeWhile_dropWhile_append hword fun c hc => hrest.isWordCharacter_eq hc
  have hnone : isTimeWithOffset [] = false := rfl
  simp only [readScalar, hspan.1, hspan.2]
  split
  · rw [hrest.takeWhile_eq, hnone, if_neg (by simp), hvalue]
    rfl
  · rw [hnone, if_neg (by simp), hvalue]
    rfl

/-- A blank may stand between a day and a time of day. -/
theorem readScalar_blank {day time zone : List Char} (hday : IsDay day) (htime : IsTime time)
    (hzone : IsZone zone) (hrest : Ends rest) :
    readScalar (day ++ ' ' :: (time ++ zone) ++ rest) =
      some (.datetime (String.ofList (day ++ ' ' :: (time ++ zone))), rest) := by
  have hblank : ∀ c ∈ (' ' :: (time ++ zone ++ rest)).head?, isWordCharacter c = false := by
    rintro c ⟨⟩
    rfl
  have hspan := takeWhile_dropWhile_append hday.isWordCharacter hblank
  have hword : ∀ c ∈ time ++ zone, isWordCharacter c :=
    List.forall_mem_append.mpr ⟨htime.isWordCharacter, hzone.isWordCharacter⟩
  have htail := takeWhile_dropWhile_append hword fun c hc => hrest.isWordCharacter_eq hc
  rw [List.append_assoc, List.cons_append, readScalar, hspan.1, hspan.2]
  simp only [htail.1, hday.isDate, htime.isTimeWithOffset_append hzone, and_self, ↓reduceIte]
  simp

/-! ## Every word -/

theorem IsInteger.isWordCharacter {n : ℤ} (h : IsInteger cs n) :
    ∀ c ∈ cs, isWordCharacter c := by
  intro c hc
  rcases h.mem c hc with halpha | hmark
  · simp [Toml.isWordCharacter, halpha]
  · simp only [List.mem_cons, List.not_mem_nil, or_false] at hmark
    rcases hmark with rfl | rfl | rfl <;> rfl

theorem IsMagnitude.isWordCharacter {negative : Bool} {x : Float} (h : IsMagnitude negative cs x) :
    ∀ c ∈ cs, isWordCharacter c := by
  intro c hc
  rcases h.mem c hc with hdigit | hmark
  · exact isWordCharacter_of_isDigit hdigit
  · have hall : ∀ c ∈ ['_', '.', 'e', 'E', '+', '-', 'i', 'n', 'f', 'a'],
        Toml.isWordCharacter c := List.all_eq_true.mp rfl
    exact hall c hmark

theorem IsInteger.wordValue?_eq {n : ℤ} (h : IsInteger cs n) (hlow : -2 ^ 63 ≤ n)
    (hhigh : n < 2 ^ 63) : wordValue? cs = some (.integer n) := by
  have hcolon : ':' ∉ cs := fun hmem => by simpa using h.mem ':' hmem
  rw [wordValue?_of_head?_ne h.head?_ne, h.isUndashed.isMoment_eq hcolon,
    if_neg Bool.false_ne_true, h.integer?_eq hlow hhigh]

theorem IsMagnitude.wordValue?_eq {x : Float} (hsign : sign ∈ signs)
    (h : IsMagnitude (sign = ['-']) cs x) :
    wordValue? (sign ++ cs) = some (.float (if sign = ['-'] then -x else x)) := by
  have hcolon : ':' ∉ sign ++ cs := fun hmem => by
    simpa using mem_sign_append hsign (by simp) (by simp) h.mem ':' hmem
  have hhead := head?_sign_append hsign (by decide) (by decide) h.head?_not_mem
  rw [wordValue?_of_head?_ne hhead, (h.isUndashed.sign_append hsign).isMoment_eq hcolon,
    if_neg Bool.false_ne_true, h.integer?_eq hsign, h.float?_eq hsign]
  rfl

theorem wordValue?_of_isMoment (h : isMoment cs) (hhead : ∃ c tail, cs = c :: tail ∧ c.isDigit) :
    wordValue? cs = some (.datetime (String.ofList cs)) := by
  obtain ⟨c, tail, rfl, hc⟩ := hhead
  rw [wordValue?_of_head?_ne, if_pos h]
  rintro d ⟨⟩
  exact ne_letter_of_isDigit hc

/-- A value of one word is read, if a value can end where it does. -/
theorem IsWord.readScalar_append (h : IsWord cs value) (hrest : Ends rest) :
    readScalar (cs ++ rest) = some (value, rest) := by
  cases h with
  | yes => exact Toml.readScalar_append (List.all_eq_true.mp rfl) rfl hrest
  | no => exact Toml.readScalar_append (List.all_eq_true.mp rfl) rfl hrest
  | integer h hlow hhigh =>
      exact Toml.readScalar_append h.isWordCharacter (h.wordValue?_eq hlow hhigh) hrest
  | float hsign h =>
      exact Toml.readScalar_append (mem_sign_append hsign rfl rfl h.isWordCharacter)
        (h.wordValue?_eq hsign) hrest
  | timestamp h =>
      have hhead := h.exists_cons
      cases h with
      | day h =>
          exact Toml.readScalar_append h.isWordCharacter (wordValue?_of_isMoment h.isMoment hhead)
            hrest
      | time h =>
          exact Toml.readScalar_append h.isWordCharacter (wordValue?_of_isMoment h.isMoment hhead)
            hrest
      | @both mark day time zone hmark hday htime hzone =>
          by_cases hblank : mark = ' '
          · subst hblank
            exact readScalar_blank hday htime hzone hrest
          · have hletter : mark ∈ ['T', 't'] := by
              simp at hmark ⊢
              tauto
            have hword : isWordCharacter mark := by
              simp only [List.mem_cons, List.not_mem_nil, or_false] at hletter
              rcases hletter with rfl | rfl <;> rfl
            refine Toml.readScalar_append ?_ (wordValue?_of_isMoment
              (isMoment_append hletter hday htime hzone) hhead) hrest
            simp only [List.forall_mem_append, List.forall_mem_cons]
            exact ⟨hday.isWordCharacter, hword, htime.isWordCharacter, hzone.isWordCharacter⟩

theorem IsInteger.ne_nil {n : ℤ} (h : IsInteger cs n) : cs ≠ [] := by
  cases h with
  | decimal _ h =>
      obtain ⟨c, tail, rfl, -⟩ := h.exists_cons
      exact List.append_ne_nil_of_right_ne_nil _ (List.cons_ne_nil c tail)
  | based => exact List.cons_ne_nil _ _

theorem IsMagnitude.ne_nil {negative : Bool} {x : Float} (h : IsMagnitude negative cs x) :
    cs ≠ [] := by
  obtain ⟨c, hc, -⟩ := h.exists_mem
  exact List.ne_nil_of_mem hc

/-- A word begins with a character that begins nothing else. -/
theorem IsWord.exists_cons (h : IsWord cs value) :
    ∃ c tail, cs = c :: tail ∧ isWordCharacter c := by
  have hcons {cs : List Char} (hne : cs ≠ []) (hword : ∀ c ∈ cs, isWordCharacter c) :
      ∃ c tail, cs = c :: tail ∧ isWordCharacter c := by
    obtain ⟨c, tail, rfl⟩ := List.exists_cons_of_ne_nil hne
    exact ⟨c, tail, rfl, hword c List.mem_cons_self⟩
  cases h with
  | yes => exact ⟨_, _, rfl, rfl⟩
  | no => exact ⟨_, _, rfl, rfl⟩
  | integer h => exact hcons h.ne_nil h.isWordCharacter
  | float hsign h =>
      exact hcons (List.append_ne_nil_of_right_ne_nil _ h.ne_nil)
        (mem_sign_append hsign rfl rfl h.isWordCharacter)
  | timestamp h =>
      obtain ⟨c, tail, rfl, hc⟩ := h.exists_cons
      exact ⟨c, tail, rfl, isWordCharacter_of_isDigit hc⟩

end DefiniteIntegral.Toml
