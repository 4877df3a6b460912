import DefiniteIntegral.Proofs.Toml.Quotes

/-! # The quotes of a text

The form that a text is given when it is written is one of the ways in which the grammar allows to
write it. -/

namespace DefiniteIntegral.Toml

/-! ## Characters -/

theorem isPlain_of_not_isControl {c : Char} (h : isControl c = false) (hline : c ≠ '\n') :
    isPlain c := by
  simp only [isControl, Bool.and_eq_false_iff, Bool.or_eq_false_iff, decide_eq_false_iff_not,
    bne_eq_false_iff_eq] at h
  simp only [isPlain, Bool.or_eq_true, Bool.and_eq_true, decide_eq_true_eq, bne_iff_ne]
  rcases h with (⟨hlow, hdelete⟩ | htab) | hnewline
  · exact Or.inr ⟨Nat.not_lt.mp hlow, hdelete⟩
  · exact Or.inl htab
  · exact absurd hnewline hline

theorem hexValue?_capitalHexDigit {n : Nat} (h : n < 16) :
    hexValue? (capitalHexDigit n) = some n := by
  have hall : ∀ n : Fin 16, hexValue? (capitalHexDigit n) = some n.val := by decide
  exact hall ⟨n, h⟩

theorem isNumberIn_of_isControl {c : Char} (h : isControl c) :
    IsNumberIn 16 ['0', '0', capitalHexDigit (c.toNat / 16), capitalHexDigit (c.toNat % 16)]
      c.toNat := by
  have hlt : c.toNat < 128 := by
    simp only [isControl, Bool.and_eq_true, Bool.or_eq_true, decide_eq_true_eq] at h
    omega
  have hzero : hexValue? '0' = some 0 ∧ 0 < 16 := by decide
  refine ⟨[0, 0, c.toNat / 16, c.toNat % 16], .cons hzero (.cons hzero (.cons ?_ (.cons ?_ .nil))),
    ?_⟩
  · exact ⟨hexValue?_capitalHexDigit (by omega), by omega⟩
  · exact ⟨hexValue?_capitalHexDigit (by omega), by omega⟩
  · simp [Nat.ofDigits_cons]
    omega

theorem written_escape {c : Char} (hquote : c ≠ '"') (hline : c ≠ '\n') : Written c (escape c) := by
  unfold escape
  split
  · rename_i h
    exact .short (by rw [h]; rfl)
  split
  · rename_i h
    exact .short (by rw [h]; rfl)
  split
  · rename_i h
    exact .short (by rw [h]; rfl)
  split
  · rename_i h
    exact .short (by rw [h]; rfl)
  split
  · rename_i h
    exact .short (by rw [h]; rfl)
  split
  · rename_i hcontrol
    exact .code (isNumberIn_of_isControl hcontrol)
  · rename_i hbackslash hcontrol
    exact .plain (isPlain_of_not_isControl (Bool.eq_false_iff.mpr hcontrol) hline) hquote hbackslash

theorem written_basicCharacter (c : Char) : Written c (basicCharacter c) := by
  unfold basicCharacter
  split
  · rename_i h
    exact .short (by rw [h]; rfl)
  split
  · rename_i h
    exact .short (by rw [h]; rfl)
  · rename_i hline hquote
    exact written_escape hquote hline

theorem areWritten_flatMap (cs : List Char) : AreWritten (cs.flatMap basicCharacter) cs := by
  induction cs with
  | nil => exact .nil
  | cons c cs ih => exact .cons (written_basicCharacter c) ih

/-! ## Several lines -/

section

variable {cs : List Char} {n : ℕ}

/-- A text with escapes on several lines is written in parts. -/
theorem isLong_longBasicCharacters (hn : n ≤ 2) (cs : List Char) :
    IsLong '"' IsBasicPart n (longBasicCharacters n cs) cs := by
  induction cs generalizing n with
  | nil => exact .nil hn
  | cons c cs ih =>
      rw [longBasicCharacters]
      split
      · rename_i hquote
        subst hquote
        split
        · have hescape : shortEscape? '"' = some '"' := rfl
          exact .part hn (.written (.short hescape)) (ih (Nat.zero_le 2))
        · exact .quote (ih (by omega))
      split
      · rename_i hline
        subst hline
        exact .part hn (.line .feed) (ih (Nat.zero_le 2))
      · rename_i hquote hline
        exact .part hn (.written (written_escape hquote hline)) (ih (Nat.zero_le 2))

theorem hasTriple_of_append {quote : Char} {ds : List Char}
    (h : hasTriple quote (ds ++ cs) = false) : hasTriple quote cs = false := by
  induction ds with
  | nil => exact h
  | cons d ds ih =>
      refine ih ?_
      rw [List.cons_append] at h
      rcases hds : ds ++ cs with - | ⟨a, - | ⟨b, later⟩⟩
      · rfl
      · rfl
      · rw [hds] at h
        exact (Bool.or_eq_false_iff.mp h).2

/-- A literal text on several lines is written in parts if no three quotes are in a row. -/
theorem isLong_literal (hn : n ≤ 2) (hcs : ∀ c ∈ cs, isPlain c ∨ c = '\n')
    (htriple : hasTriple '\'' (List.replicate n '\'' ++ cs) = false) :
    IsLong '\'' IsLiteralPart n cs cs := by
  induction cs generalizing n with
  | nil => exact .nil hn
  | cons c cs ih =>
      obtain ⟨hc, hlater⟩ := List.forall_mem_cons.mp hcs
      by_cases hquote : c = '\''
      · subst hquote
        rw [List.append_cons, ← List.replicate_succ'] at htriple
        have hn' : n ≠ 2 := by
          rintro rfl
          simp [List.replicate_succ, hasTriple] at htriple
        exact .quote (ih (by omega) hlater htriple)
      · rw [List.append_cons] at htriple
        have hnext : hasTriple '\'' cs = false := hasTriple_of_append htriple
        rcases hc with hplain | hline
        · exact .part hn (.plain hplain hquote) (ih (Nat.zero_le 2) hlater hnext)
        · subst hline
          exact .part hn (.line .feed) (ih (Nat.zero_le 2) hlater hnext)

theorem isPlain_of_any_isControl {cs : List Char} (h : cs.any isControl = false) {c : Char}
    (hc : c ∈ cs) : isPlain c ∨ c = '\n' := by
  by_cases hline : c = '\n'
  · exact Or.inr hline
  · exact Or.inl (isPlain_of_not_isControl (by simpa using List.any_eq_false.mp h c hc) hline)

theorem of_formOf_literal {cs : List Char} (h : formOf cs = .literal) :
    ∀ c ∈ cs, isPlain c ∧ c ≠ '\'' := by
  simp only [formOf] at h
  split at h
  · cases h
  split at h
  · rename_i hcondition
    simp only [Bool.and_eq_true, Bool.not_eq_true', List.contains_eq_mem,
      decide_eq_false_iff_not] at hcondition
    obtain ⟨⟨hcontrol, hquote⟩, hline⟩ := hcondition
    intro c hc
    refine ⟨(isPlain_of_any_isControl hcontrol hc).resolve_right ?_, ?_⟩
    · rintro rfl
      exact hline hc
    · rintro rfl
      exact hquote hc
  · split at h
    · cases h
    split at h
    · cases h
    split at h <;> cases h

theorem of_formOf_longLiteral {cs : List Char} (h : formOf cs = .longLiteral) :
    (∀ c ∈ cs, isPlain c ∨ c = '\n') ∧ hasTriple '\'' cs = false := by
  simp only [formOf] at h
  split at h
  · cases h
  split at h
  · cases h
  split at h
  · cases h
  split at h
  · rename_i hcondition
    obtain ⟨hcontrol, htriple⟩ := Bool.and_eq_true_iff.mp hcondition
    refine ⟨fun c hc => isPlain_of_any_isControl ?_ hc, ?_⟩
    · simpa using hcontrol
    · simpa using htriple
  · split at h <;> cases h

/-- A text that is written without a line end may begin behind its mark. -/
theorem isOpening_lines {lines : Bool} {written : List Char}
    (h : lines = false → ∀ c ∈ written.head?, isPlain c) :
    IsOpening (if lines then ['\n'] else []) written := by
  cases lines with
  | true => exact Or.inl .feed
  | false => exact Or.inr ⟨rfl, h rfl⟩

theorem betweenMarks_eq (mark : List Char) (lines : Bool) (written : List Char) :
    betweenMarks mark lines written =
      mark ++ ((if lines then ['\n'] else []) ++ (written ++ mark)) := by
  cases lines <;> simp [betweenMarks]

theorem isPlain_head?_longBasicCharacters (hlines : cs.contains '\n' = false) :
    ∀ c ∈ (longBasicCharacters 0 cs).head?, isPlain c := by
  rcases cs with - | ⟨c, cs⟩
  · exact nofun
  · rw [longBasicCharacters]
    split
    · rintro d ⟨⟩
      decide
    split
    · rename_i hline
      simp [hline] at hlines
    · rename_i hquote hline
      obtain ⟨first, later, hfirst, hplain, -⟩ := (written_escape hquote hline).exists_cons
      rw [hfirst]
      rintro d ⟨⟩
      exact hplain

theorem isQuote_longBasic (cs : List Char) :
    IsQuote (betweenMarks ['"', '"', '"'] (cs.contains '\n') (longBasicCharacters 0 cs))
      (String.ofList cs) := by
  rw [betweenMarks_eq]
  exact .longBasic (isOpening_lines isPlain_head?_longBasicCharacters)
    (isLong_longBasicCharacters (Nat.zero_le 2) cs)

theorem isQuote_longLiteral (hcs : ∀ c ∈ cs, isPlain c ∨ c = '\n')
    (htriple : hasTriple '\'' cs = false) :
    IsQuote (betweenMarks ['\'', '\'', '\''] (cs.contains '\n') cs) (String.ofList cs) := by
  rw [betweenMarks_eq]
  refine .longLiteral (isOpening_lines fun hlines c hc => ?_)
    (isLong_literal (Nat.zero_le 2) hcs htriple)
  refine (hcs c (List.mem_of_head? hc)).resolve_right ?_
  rintro rfl
  simp [List.mem_of_head? hc] at hlines

end

/-- A text is written between quotes in one of their forms. -/
theorem isQuote_quote (text : String) : IsQuote (quote text).toList text := by
  suffices hquote : IsQuote (quote text).toList (String.ofList text.toList) by
    rwa [String.ofList_toList] at hquote
  rw [quote, String.toList_ofList]
  cases hform : formOf text.toList with
  | basic => exact .short (.basic (areWritten_flatMap _))
  | literal => exact .short (.literal (of_formOf_literal hform))
  | longBasic => exact isQuote_longBasic _
  | longLiteral =>
      obtain ⟨hcs, htriple⟩ := of_formOf_longLiteral hform
      exact isQuote_longLiteral hcs htriple

end DefiniteIntegral.Toml
