import DefiniteIntegral.Text.Blank
import DefiniteIntegral.Text.Pieces
import Mathlib.Data.List.DropRight

/-! # Pieces of a text

A text is cut at the occurrences of its separator, and a piece loses the blanks at its two ends and
nothing else. -/

namespace DefiniteIntegral

open List

/-! ## Cutting -/

theorem pieces_ne_nil (separator : Char) (cs : List Char) : pieces separator cs ≠ [] := by
  induction cs with
  | nil => simp [pieces]
  | cons c cs ih =>
      rw [pieces]
      split
      · exact cons_ne_nil _ _
      · split <;> exact cons_ne_nil _ _

theorem pieces_eq_splitOn (separator : Char) (cs : List Char) :
    pieces separator cs = cs.splitOn separator := by
  induction cs with
  | nil => rfl
  | cons c cs ih =>
      rw [splitOn_cons_eq_if_modifyHead, ← ih, pieces]
      by_cases hc : c = separator
      · simp [hc]
      · obtain ⟨piece, rest, hpieces⟩ := exists_cons_of_ne_nil (pieces_ne_nil separator cs)
        simp [hc, hpieces]

theorem not_mem_of_mem_pieces {separator : Char} {cs piece : List Char}
    (h : piece ∈ pieces separator cs) : separator ∉ piece := by
  induction cs generalizing piece with
  | nil => simp_all [pieces]
  | cons c cs ih =>
      by_cases hc : c = separator
      · rw [pieces, if_pos hc] at h
        rcases mem_cons.mp h with rfl | h
        · exact not_mem_nil
        · exact ih h
      · obtain ⟨first, rest, hpieces⟩ := exists_cons_of_ne_nil (pieces_ne_nil separator cs)
        rw [pieces, if_neg hc, hpieces] at h
        rcases mem_cons.mp h with rfl | h
        · have hfirst : separator ∉ first := ih (by simp [hpieces])
          simp [Ne.symm hc, hfirst]
        · exact ih (by simp [hpieces, h])

/-- Pieces without the separator are cut where they were joined. -/
theorem pieces_intercalate {separator : Char} {parts : List (List Char)}
    (hparts : ∀ part ∈ parts, separator ∉ part) (hne : parts ≠ []) :
    pieces separator ([separator].intercalate parts) = parts := by
  rw [pieces_eq_splitOn, splitOn_intercalate separator hparts hne]

/-- A text without the separator is one piece. -/
theorem pieces_of_not_mem {separator : Char} {piece : List Char} (h : separator ∉ piece) :
    pieces separator piece = [piece] := by
  have hparts : ∀ part ∈ [piece], separator ∉ part := by
    rintro part (- | ⟨-, ⟨⟩⟩)
    exact h
  have hsingle := pieces_intercalate hparts (cons_ne_nil _ _)
  rwa [intercalate_singleton] at hsingle

/-- The first piece ends at the first separator. -/
theorem pieces_append_cons {separator : Char} {piece : List Char} (h : separator ∉ piece)
    (rest : List Char) :
    pieces separator (piece ++ separator :: rest) = piece :: pieces separator rest := by
  induction piece with
  | nil => rw [nil_append, pieces, if_pos rfl]
  | cons c piece ih =>
      obtain ⟨hc, hpiece⟩ := not_or.mp (mem_cons.not.mp h)
      rw [cons_append, pieces, if_neg (Ne.symm hc), ih hpiece]

/-! ## Trimming -/

/-- A text is another one without the blanks at its two ends: what is taken off is blank, and what
remains begins and ends with a character that is not. -/
structure IsTrimmed (cs trimmed : List Char) : Prop where
  split : ∃ before after, cs = before ++ trimmed ++ after ∧ ∀ c ∈ before ++ after, isBlank c
  head : ∀ c ∈ trimmed.head?, ¬ isBlank c
  last : ∀ c ∈ trimmed.getLast?, ¬ isBlank c

theorem trimBlank_eq (cs : List Char) : trimBlank cs = (cs.dropWhile isBlank).rdropWhile isBlank :=
  rfl

theorem isTrimmed_trimBlank (cs : List Char) : IsTrimmed cs (trimBlank cs) := by
  rw [trimBlank_eq]
  set rest := cs.dropWhile isBlank with hrest
  have hcs : cs.takeWhile isBlank ++ rest = cs := takeWhile_append_dropWhile
  have hsplit : rest.rdropWhile isBlank ++ rest.rtakeWhile isBlank = rest :=
    rdropWhile_append_rtakeWhile
  refine ⟨⟨cs.takeWhile isBlank, rest.rtakeWhile isBlank, ?_, ?_⟩, ?_, ?_⟩
  · rw [append_assoc, hsplit, hcs]
  · intro c hc
    rcases mem_append.mp hc with hc | hc
    · exact mem_takeWhile_imp hc
    · exact mem_rtakeWhile_imp hc
  · intro c hc
    have hhead : rest.head? = some c := by
      rw [← hsplit, head?_append]
      simp [Option.mem_def.mp hc]
    have hfirst := head?_dropWhile_not isBlank cs
    rw [← hrest, hhead] at hfirst
    simpa using hfirst
  · intro c hc
    have hne : rest.rdropWhile isBlank ≠ [] := by
      rintro hnil
      simp [hnil] at hc
    obtain rfl : (rest.rdropWhile isBlank).getLast hne = c := by
      rw [getLast?_eq_some_getLast hne] at hc
      simpa using hc
    exact rdropWhile_last_not _ _ hne

theorem trimBlank_of_ends {cs : List Char} (hhead : ∀ c ∈ cs.head?, ¬ isBlank c)
    (hlast : ∀ c ∈ cs.getLast?, ¬ isBlank c) : trimBlank cs = cs := by
  have hdrop : cs.dropWhile isBlank = cs := by
    cases cs with
    | nil => rfl
    | cons c cs => exact dropWhile_cons_of_neg (hhead c (by simp))
  rw [trimBlank_eq, hdrop, rdropWhile_eq_self_iff]
  intro hne
  exact hlast _ (by simp [getLast?_eq_some_getLast hne])

/-- Only one text is another one without the blanks at its ends. -/
theorem IsTrimmed.eq_trimBlank {cs trimmed : List Char} (h : IsTrimmed cs trimmed) :
    trimmed = trimBlank cs := by
  obtain ⟨⟨before, after, rfl, hblank⟩, hhead, hlast⟩ := h
  have hbefore : ∀ c ∈ before, isBlank c := fun c hc => hblank c (mem_append_left _ hc)
  have hafter : ∀ c ∈ after.reverse, isBlank c := fun c hc =>
    hblank c (mem_append_right _ (mem_reverse.mp hc))
  rw [trimBlank, append_assoc, dropWhile_append_of_pos hbefore]
  cases trimmed with
  | nil =>
      have hnil : after.dropWhile isBlank = [] :=
        dropWhile_eq_nil_iff.mpr fun c hc => hafter c (mem_reverse.mpr hc)
      simp [hnil]
  | cons c trimmed =>
      have hfirst : ¬ isBlank c := hhead c (by simp)
      rw [cons_append, dropWhile_cons_of_neg hfirst, ← cons_append, reverse_append,
        dropWhile_append_of_pos hafter]
      exact (trimBlank_of_ends hhead hlast).symm.trans (by
        rw [trimBlank, dropWhile_cons_of_neg hfirst])

theorem IsTrimmed.self {cs trimmed : List Char} (h : IsTrimmed cs trimmed) :
    trimBlank trimmed = trimmed :=
  trimBlank_of_ends h.head h.last

end DefiniteIntegral
