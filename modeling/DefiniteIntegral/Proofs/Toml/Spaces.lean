import DefiniteIntegral.Proofs.Toml.Grammar

/-! # Blanks, line ends and comments

What stands between the parts of a text is skipped, and a value ends where it begins. -/

namespace DefiniteIntegral.Toml

/-! ## Blanks -/

/-- A character that is no blank, ends no line and begins no comment. -/
def IsContent (c : Char) : Prop :=
  c ≠ ' ' ∧ c ≠ '\t' ∧ c ≠ '\n' ∧ c ≠ '\r' ∧ c ≠ '#'

variable {c : Char} {cs blanks comment lineEnd gap : List Char}

theorem areBlanks_nil : AreBlanks [] :=
  nofun

theorem isGap_nil : IsGap [] :=
  .blanks areBlanks_nil

theorem isSpace_iff : isSpace c ↔ c ∈ [' ', '\t'] := by
  simp [isSpace]

theorem skipSpace_append (h : AreBlanks blanks) (cs : List Char) :
    skipSpace (blanks ++ cs) = skipSpace cs :=
  List.dropWhile_append_of_pos fun c hc => isSpace_iff.mpr (h c hc)

theorem skipSpace_cons (h : isSpace c = false) (cs : List Char) :
    skipSpace (c :: cs) = c :: cs := by
  rw [skipSpace, List.dropWhile_cons_of_neg (by simp [h])]

theorem skipSpace_cons_of_isContent (h : IsContent c) (cs : List Char) :
    skipSpace (c :: cs) = c :: cs :=
  skipSpace_cons (by simp [isSpace, h.1, h.2.1]) cs

theorem skipLines_cons_of_isContent (h : IsContent c) (cs : List Char) :
    skipLines (c :: cs) = c :: cs := by
  obtain ⟨hspace, htab, hline, hreturn, hcomment⟩ := h
  rw [skipLines]
  all_goals simp_all

/-! ## Lines without values -/

theorem skipLines_blanks (h : AreBlanks blanks) (cs : List Char) :
    skipLines (blanks ++ cs) = skipLines cs := by
  induction blanks with
  | nil => rfl
  | cons c blanks ih =>
      obtain ⟨hc, hblanks⟩ := List.forall_mem_cons.mp h
      simp only [List.mem_cons, List.not_mem_nil, or_false] at hc
      rcases hc with rfl | rfl <;> rw [List.cons_append, skipLines, ih hblanks]

theorem skipLines_lineEnd (h : IsLineEnd lineEnd) (cs : List Char) :
    skipLines (lineEnd ++ cs) = skipLines cs := by
  cases h <;> simp [skipLines]

theorem dropWhile_isPlain (hcs : ∀ c ∈ cs, isPlain c) : cs.dropWhile isPlain = [] := by
  rw [← List.append_nil cs, List.dropWhile_append_of_pos hcs, List.dropWhile_nil]

/-- A comment ends with its line. -/
theorem IsLineEnd.dropWhile_append (h : IsLineEnd lineEnd)
    (hcs : ∀ c ∈ cs, isPlain c) (rest : List Char) :
    (cs ++ (lineEnd ++ rest)).dropWhile isPlain = lineEnd ++ rest := by
  rw [List.dropWhile_append_of_pos hcs]
  cases h <;> rfl

theorem skipLines_comment (h : IsComment comment) (hend : IsLineEnd lineEnd) (cs : List Char) :
    skipLines (comment ++ (lineEnd ++ cs)) = skipLines cs := by
  cases h with
  | absent => exact skipLines_lineEnd hend cs
  | marked h => rw [List.cons_append, skipLines, hend.dropWhile_append h, skipLines_lineEnd hend]

theorem IsGap.skipLines_append (h : IsGap gap) (cs : List Char) :
    skipLines (gap ++ cs) = skipLines cs := by
  induction h with
  | blanks h => exact skipLines_blanks h cs
  | line hblanks hcomment hend _ ih =>
      simp only [List.append_assoc]
      rw [skipLines_blanks hblanks, skipLines_comment hcomment hend, ih]

/-- A line ends after blanks and a comment. -/
theorem lineEnd?_append (hblanks : AreBlanks blanks) (hcomment : IsComment comment)
    (hend : IsLineEnd lineEnd) (rest : List Char) :
    lineEnd? (blanks ++ (comment ++ (lineEnd ++ rest))) = some rest := by
  have hskip : skipComment (skipSpace (comment ++ (lineEnd ++ rest))) = lineEnd ++ rest := by
    cases hcomment with
    | absent => cases hend <;> rfl
    | marked h =>
        rw [List.cons_append, skipSpace_cons rfl, skipComment, hend.dropWhile_append h]
  rw [lineEnd?, skipSpace_append hblanks, hskip]
  cases hend <;> rfl

/-- The last line need not have an end. -/
theorem lineEnd?_last (hblanks : AreBlanks blanks) (hcomment : IsComment comment) :
    lineEnd? (blanks ++ comment) = some [] := by
  rw [lineEnd?, skipSpace_append hblanks]
  cases hcomment with
  | absent => rfl
  | marked h =>
      rw [skipSpace_cons rfl, skipComment, dropWhile_isPlain h]

theorem skipLines_last (hblanks : AreBlanks blanks) (hcomment : IsComment comment) :
    skipLines (blanks ++ comment) = [] := by
  rw [skipLines_blanks hblanks]
  cases hcomment with
  | absent => simp [skipLines]
  | marked h => rw [skipLines, dropWhile_isPlain h, skipLines]

/-! ## Where a value ends -/

/-- What follows a value: blanks, and then the end of its line or a mark of what it is part of. -/
def Ends (cs : List Char) : Prop :=
  ∀ c ∈ (skipSpace cs).head?, c ∈ ['\n', '\r', '#', ',', ']', '\x7d']

theorem ends_append (hblanks : AreBlanks blanks) (h : Ends cs) : Ends (blanks ++ cs) := by
  rwa [Ends, skipSpace_append hblanks]

theorem ends_cons (hc : c ∈ ['\n', '\r', '#', ',', ']', '\x7d']) (cs : List Char) :
    Ends (c :: cs) := by
  have hspace : isSpace c = false := by
    simp only [List.mem_cons, List.not_mem_nil, or_false] at hc
    rcases hc with rfl | rfl | rfl | rfl | rfl | rfl <;> rfl
  rw [Ends, skipSpace_cons hspace]
  rintro d ⟨⟩
  exact hc

theorem IsLineEnd.ends_append (h : IsLineEnd lineEnd) (cs : List Char) : Ends (lineEnd ++ cs) := by
  cases h <;> exact ends_cons (by decide) _

theorem IsComment.ends_append (h : IsComment comment) (hcs : Ends cs) : Ends (comment ++ cs) := by
  cases h with
  | absent => exact hcs
  | marked => exact ends_cons (by decide) _

theorem IsGap.ends_append (h : IsGap gap) (hcs : Ends cs) : Ends (gap ++ cs) := by
  cases h with
  | blanks h => exact Toml.ends_append h hcs
  | line hblanks hcomment hend =>
      simp only [List.append_assoc]
      exact Toml.ends_append hblanks (hcomment.ends_append (hend.ends_append _))

/-- What follows a value begins with no other character than a blank or a mark. -/
theorem Ends.mem_of_head? (h : Ends cs) (hc : cs.head? = some c) :
    c ∈ [' ', '\t', '\n', '\r', '#', ',', ']', '\x7d'] := by
  obtain ⟨rest, rfl⟩ := List.head?_eq_some_iff.mp hc
  by_cases hspace : isSpace c
  · rw [isSpace_iff] at hspace
    simp at hspace ⊢
    tauto
  · have hmark := h c (by rw [skipSpace_cons (by simpa using hspace)]; rfl)
    simp at hmark ⊢
    tauto

end DefiniteIntegral.Toml
