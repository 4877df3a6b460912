import DefiniteIntegral.Proofs.Toml.Digits
import DefiniteIntegral.Proofs.Toml.Spaces

/-! # Texts in quotes

Every text reads back from the quotes it is written in, in whichever way the grammar allows. -/

namespace DefiniteIntegral.Toml

/-! ## Characters -/

theorem ne_newline_of_isPlain {c : Char} (h : isPlain c) : c ≠ '\n' ∧ c ≠ '\r' := by
  constructor <;> (rintro rfl; simp [isPlain] at h)

theorem IsNumberIn.escapedCode?_eq {digits : List Char} {c : Char}
    (h : IsNumberIn 16 digits c.toNat) : escapedCode? digits = some c := by
  have hvalid : c.toNat.isValidChar := c.valid
  rw [escapedCode?, hexNumber?, h.foldlM_eq, Option.bind_eq_bind, Option.bind_some, if_pos hvalid,
    Char.ofNat_toNat]

/-- What is written for a character begins with a plain one other than a quote. -/
theorem Written.exists_cons {c : Char} {written : List Char} (h : Written c written) :
    ∃ first later, written = first :: later ∧ isPlain first ∧ first ≠ '"' := by
  cases h with
  | short h => exact ⟨_, _, rfl, by decide⟩
  | code h => exact ⟨_, _, rfl, by decide⟩
  | longCode h => exact ⟨_, _, rfl, by decide⟩
  | plain h hquote hbackslash => exact ⟨_, _, rfl, h, hquote⟩

theorem ne_u_of_shortEscape? {letter c : Char} (h : shortEscape? letter = some c) :
    letter ≠ 'u' ∧ letter ≠ 'U' := by
  constructor <;> (rintro rfl; cases h)

/-! ## One line -/

section

variable {written cs rest : List Char}

theorem readBasic_written {c : Char} (h : Written c written) (rest : List Char) :
    readBasic (written ++ rest) = (readBasic rest).map (push c) := by
  cases h with
  | short h =>
      have hu := ne_u_of_shortEscape? h
      simp only [List.cons_append, List.nil_append]
      rw [readBasic, h]
      · cases readBasic rest <;> rfl
      · simp [hu]
      · simp [hu]
  | code h =>
      simp only [List.cons_append, List.nil_append, readBasic, h.escapedCode?_eq]
      cases readBasic rest <;> rfl
  | longCode h =>
      simp only [List.cons_append, List.nil_append, readBasic, h.escapedCode?_eq]
      cases readBasic rest <;> rfl
  | plain h hquote hbackslash => simp [readBasic, h, hbackslash]

/-- A text with escapes on one line reads back. -/
theorem AreWritten.readBasic_append (h : AreWritten written cs) (rest : List Char) :
    readBasic (written ++ '"' :: rest) = some (cs, rest) := by
  induction h with
  | nil => rfl
  | cons hc _ ih =>
      rw [List.append_assoc, readBasic_written hc, ih]
      rfl

/-- A literal text on one line reads back. -/
theorem readLiteral_append (h : ∀ c ∈ cs, isPlain c ∧ c ≠ '\'') (rest : List Char) :
    readLiteral (cs ++ '\'' :: rest) = some (cs, rest) := by
  induction cs with
  | nil => rfl
  | cons c cs ih =>
      obtain ⟨⟨hplain, hquote⟩, hcs⟩ := List.forall_mem_cons.mp h
      rw [List.cons_append, readLiteral, if_pos hplain, ih hcs]
      · rfl
      · exact hquote

end

/-! ## Several lines

A text on several lines can end with quotes, which makes the row of quotes there longer than the
closing mark. -/

theorem closingQuotes_of_head?_ne {quote : Char} {rest : List Char}
    (h : rest.head? ≠ some quote) : closingQuotes quote rest = ([], rest) := by
  rcases rest with - | ⟨a, - | ⟨b, rest⟩⟩
  · rfl
  · have hne : a ≠ quote := fun he => h (congrArg some he)
    rw [closingQuotes, if_neg hne]
  · have hne : a ≠ quote := fun he => h (congrArg some he)
    rw [closingQuotes, if_pos hne]

theorem closingQuotes_replicate {quote : Char} {k : Nat} {rest : List Char} (hk : k ≤ 2)
    (hrest : rest.head? ≠ some quote) :
    closingQuotes quote (List.replicate k quote ++ rest) = (List.replicate k quote, rest) := by
  match k, hk with
  | 0, _ => exact closingQuotes_of_head?_ne hrest
  | 1, _ =>
      rcases rest with - | ⟨b, rest⟩
      · simp [closingQuotes]
      · have hne : b ≠ quote := fun he => hrest (congrArg some he)
        simp [closingQuotes, hne]
  | 2, _ => simp [closingQuotes, List.replicate]

/-- A mark in front of a text goes to its end if the text has only such quotes. -/
theorem replicate_append_mark {quote : Char} (k : Nat) (rest : List Char) :
    List.replicate k quote ++ quote :: quote :: quote :: rest =
      quote :: quote :: quote :: (List.replicate k quote ++ rest) := by
  induction k with
  | zero => rfl
  | succ k ih => rw [List.replicate_succ, List.cons_append, ih, List.cons_append]

/-- A reader of texts on several lines takes every part off a text, and it takes quotes that are no
mark as they are. -/
structure ReadsParts (quote : Char) (part : List Char → List Char → List Char → Prop)
    (read : Reader (List Char)) : Prop where
  first : ∀ {written text next}, part written text next →
    ∃ first later, written = first :: later ∧ first ≠ quote
  part : ∀ {written text next}, part written text next → ∀ rest,
    read (written ++ (next ++ quote :: quote :: quote :: rest)) =
      (read (next ++ quote :: quote :: quote :: rest)).map fun found => (text ++ found.1, found.2)
  plain : ∀ cs, ¬ [quote, quote, quote] <+: quote :: cs →
    read (quote :: cs) = (read cs).map (push quote)
  mark : ∀ rest, read (quote :: quote :: quote :: rest) = some (closingQuotes quote rest)

section

variable {quote : Char} {part : List Char → List Char → List Char → Prop}
  {read : Reader (List Char)} {n : ℕ} {written cs rest : List Char}

theorem IsLong.le_two (h : IsLong quote part n written cs) : n ≤ 2 := by
  induction h with
  | nil hn => exact hn
  | part hn => exact hn
  | quote _ ih => omega

/-- What is written after so many quotes is nothing but quotes if the rest of a mark begins with
it. -/
theorem IsLong.eq_replicate (hread : ReadsParts quote part read)
    (h : IsLong quote part n written cs) {m : ℕ} (hmn : m + n = 3)
    (hmark : List.replicate m quote <+: written ++ quote :: quote :: quote :: rest) :
    ∃ k, n + k ≤ 2 ∧ written = List.replicate k quote ∧ cs = List.replicate k quote := by
  induction h generalizing m with
  | nil hn => exact ⟨0, hn, rfl, rfl⟩
  | part hn hpart =>
      obtain ⟨first, later, rfl, hfirst⟩ := hread.first hpart
      obtain ⟨m, rfl⟩ : ∃ m', m = m' + 1 := ⟨m - 1, by omega⟩
      rw [List.replicate_succ, List.cons_append, List.cons_append, List.cons_prefix_cons] at hmark
      exact absurd hmark.1.symm hfirst
  | quote hrest ih =>
      have hn := hrest.le_two
      obtain ⟨m, rfl⟩ : ∃ m', m = m' + 1 := ⟨m - 1, by omega⟩
      rw [List.replicate_succ, List.cons_append, List.cons_prefix_cons] at hmark
      obtain ⟨k, hk, rfl, rfl⟩ := ih (by omega) hmark.2
      exact ⟨k + 1, by omega, rfl, rfl⟩

/-- A text on several lines reads back. -/
theorem IsLong.read_append (hread : ReadsParts quote part read)
    (h : IsLong quote part n written cs) (hrest : rest.head? ≠ some quote) :
    read (written ++ quote :: quote :: quote :: rest) = some (cs, rest) := by
  induction h with
  | nil => rw [List.nil_append, hread.mark, closingQuotes_of_head?_ne hrest]
  | part _ hpart _ ih =>
      rw [List.append_assoc, hread.part hpart, ih]
      rfl
  | @quote n written cs hlater ih =>
      by_cases hmark : [quote, quote, quote] <+:
          quote :: (written ++ quote :: quote :: quote :: rest)
      · -- The mark begins here, so that only quotes are left.
        have hpart : List.replicate (3 - (n + 1)) quote <+: List.replicate 2 quote :=
          List.prefix_replicate_iff.mpr ⟨by simp only [List.length_replicate]; omega, by simp⟩
        have hn := hlater.le_two
        obtain ⟨k, hk, rfl, rfl⟩ := hlater.eq_replicate hread (by omega)
          (hpart.trans (List.cons_prefix_cons.mp hmark).2)
        have hquotes := closingQuotes_replicate (k := k + 1) (by omega) hrest
        rw [← List.replicate_succ, replicate_append_mark, hread.mark, hquotes]
      · rw [List.cons_append, hread.plain _ hmark, ih]
        rfl

end

/-! ### Literal texts -/

theorem readLongLiteral_cons {c : Char} {cs : List Char} (h : isPlain c ∨ c = '\n')
    (hmark : ¬ ['\'', '\'', '\''] <+: c :: cs) :
    readLongLiteral (c :: cs) = (readLongLiteral cs).map (push c) := by
  have hreturn : c ≠ '\r' := by
    rintro rfl
    simp [isPlain] at h
  rw [readLongLiteral, if_pos h]
  · rintro rest rfl rfl
    exact hmark (List.prefix_append _ rest)
  · rintro rest rfl
    exact absurd rfl hreturn

/-- No mark begins with another character. -/
theorem cons_ne_mark {quote c : Char} (h : c ≠ quote) (cs : List Char) :
    ¬ [quote, quote, quote] <+: c :: cs := fun hmark =>
  h (List.cons_prefix_cons.mp hmark).1.symm

theorem readsParts_readLongLiteral : ReadsParts '\'' IsLiteralPart readLongLiteral where
  first h := by
    cases h with
    | plain _ hquote => exact ⟨_, _, rfl, hquote⟩
    | line h => cases h <;> exact ⟨_, _, rfl, by decide⟩
  part h rest := by
    cases h with
    | plain h hquote => exact readLongLiteral_cons (Or.inl h) (cons_ne_mark hquote _)
    | line h =>
        cases h with
        | feed => exact readLongLiteral_cons (Or.inr rfl) (cons_ne_mark (by decide) _)
        | carriage => rfl
  plain _ hmark := readLongLiteral_cons (Or.inl (by decide)) hmark
  mark _ := rfl

/-! ### Texts with escapes -/

theorem readLongBasic_cons {c : Char} {cs : List Char}
    (h : (isPlain c ∧ c ≠ '\\') ∨ c = '\n') (hmark : ¬ ['"', '"', '"'] <+: c :: cs) :
    readLongBasic false (c :: cs) = (readLongBasic false cs).map (push c) := by
  have hreturn : c ≠ '\r' := by
    rintro rfl
    simp [isPlain] at h
  have hbackslash : c ≠ '\\' := by
    rintro rfl
    simp at h
  rw [readLongBasic, if_neg (by simp), if_pos h]
  · rintro rest rfl rfl
    exact hmark (List.prefix_append _ rest)
  all_goals
    intros
    contradiction

theorem atLineEnd_of_shortEscape? {letter c : Char} (h : shortEscape? letter = some c)
    (rest : List Char) : atLineEnd (letter :: rest) = false := by
  unfold shortEscape? at h
  split at h
  case h_8 => cases h
  all_goals rfl

theorem readLongBasic_written {c : Char} {written : List Char} (h : Written c written)
    (rest : List Char) :
    readLongBasic false (written ++ rest) = (readLongBasic false rest).map (push c) := by
  cases h with
  | short h =>
      have hu := ne_u_of_shortEscape? h
      have hline := atLineEnd_of_shortEscape? h rest
      simp only [List.cons_append, List.nil_append]
      rw [readLongBasic, hline, h]
      · cases readLongBasic false rest <;> rfl
      · simp [hu]
      · simp [hu]
  | code h =>
      simp only [List.cons_append, List.nil_append, readLongBasic, h.escapedCode?_eq]
      cases readLongBasic false rest <;> rfl
  | longCode h =>
      simp only [List.cons_append, List.nil_append, readLongBasic, h.escapedCode?_eq]
      cases readLongBasic false rest <;> rfl
  | plain h hquote hbackslash =>
      exact readLongBasic_cons (Or.inl ⟨h, hbackslash⟩) (cons_ne_mark hquote _)

theorem readLongBasic_lineEnd {lineEnd : List Char} (h : IsLineEnd lineEnd) (cs : List Char) :
    readLongBasic false (lineEnd ++ cs) = (readLongBasic false cs).map (push '\n') := by
  cases h with
  | feed => exact readLongBasic_cons (Or.inr rfl) (cons_ne_mark (by decide) _)
  | carriage => simp [readLongBasic]

/-- What is void is skipped after a backslash. -/
theorem readLongBasic_void {void : List Char} (h : IsVoid void) (cs : List Char) :
    readLongBasic true (void ++ cs) = readLongBasic true cs := by
  induction h with
  | nil => rfl
  | blank hc _ ih =>
      simp only [List.mem_cons, List.not_mem_nil, or_false] at hc
      rcases hc with rfl | rfl <;> simp [readLongBasic, isSpace, ih]
  | line hend _ ih => cases hend <;> simp [readLongBasic, ih]

/-- Only blanks and line ends are skipped after a backslash. -/
theorem readLongBasic_hidden {cs : List Char} (h : ∀ c ∈ cs.head?, c ∉ [' ', '\t', '\n', '\r']) :
    readLongBasic true cs = readLongBasic false cs := by
  rcases cs with - | ⟨c, cs⟩
  · simp [readLongBasic]
  · have hc := h c rfl
    simp only [List.mem_cons, List.not_mem_nil, or_false, not_or] at hc
    obtain ⟨hspace, htab, hline, hreturn⟩ := hc
    have hblank : isSpace c = false := by simp [isSpace, hspace, htab]
    rw [readLongBasic.eq_def, readLongBasic.eq_def false]
    split
    all_goals simp_all

theorem areBlanks_void {blanks void : List Char} (h : AreBlanks blanks) (hvoid : IsVoid void) :
    IsVoid (blanks ++ void) := by
  induction blanks with
  | nil => exact hvoid
  | cons c blanks ih =>
      obtain ⟨hc, hblanks⟩ := List.forall_mem_cons.mp h
      exact .blank hc (ih hblanks)

theorem atLineEnd_append {blanks lineEnd : List Char} (hblanks : AreBlanks blanks)
    (hend : IsLineEnd lineEnd) (cs : List Char) : atLineEnd (blanks ++ (lineEnd ++ cs)) := by
  rw [atLineEnd, skipSpace_append hblanks]
  cases hend <;> rfl

/-- A backslash before the end of a line hides it, and what is void after it. -/
theorem readLongBasic_backslash {blanks lineEnd void rest : List Char} (hblanks : AreBlanks blanks)
    (hend : IsLineEnd lineEnd) (hvoid : IsVoid void)
    (hrest : ∀ c ∈ rest.head?, c ∉ [' ', '\t', '\n', '\r']) :
    readLongBasic false ('\\' :: (blanks ++ (lineEnd ++ (void ++ rest)))) =
      readLongBasic false rest := by
  have hline := atLineEnd_append hblanks hend (void ++ rest)
  have hskip := readLongBasic_void (areBlanks_void hblanks (.line hend hvoid)) rest
  simp only [List.append_assoc] at hskip
  obtain ⟨c, cs, hcons, hc⟩ : ∃ c cs, blanks ++ (lineEnd ++ (void ++ rest)) = c :: cs ∧
      c ∈ [' ', '\t', '\n', '\r'] := by
    rcases blanks with - | ⟨c, blanks⟩
    · cases hend <;> exact ⟨_, _, rfl, by decide⟩
    · have hc := hblanks c List.mem_cons_self
      exact ⟨c, _, rfl, by simp at hc ⊢; tauto⟩
  rw [hcons] at hline hskip ⊢
  rw [readLongBasic, if_pos hline, hskip, readLongBasic_hidden hrest]
  · rintro - - - - - rfl
    exact absurd hc (by decide)
  · rintro - - - - - - - - - rfl
    exact absurd hc (by decide)

theorem readsParts_readLongBasic : ReadsParts '"' IsBasicPart (readLongBasic false) where
  first h := by
    cases h with
    | written h =>
        obtain ⟨first, later, hcons, -, hne⟩ := h.exists_cons
        exact ⟨first, later, hcons, hne⟩
    | line h => cases h <;> exact ⟨_, _, rfl, by decide⟩
    | hidden => exact ⟨_, _, rfl, by decide⟩
  part h rest := by
    cases h with
    | written h => exact readLongBasic_written h _
    | line h => exact readLongBasic_lineEnd h _
    | @hidden blanks lineEnd void _ hblanks hend hvoid hnext =>
        rename_i next
        have hhead : ∀ c ∈ (next ++ '"' :: '"' :: '"' :: rest).head?,
            c ∉ [' ', '\t', '\n', '\r'] := by
          rcases next with - | ⟨d, next⟩
          · rintro c ⟨⟩
            decide
          · exact hnext
        have hread := readLongBasic_backslash hblanks hend hvoid hhead
        simp only [List.cons_append, List.append_assoc, List.nil_append] at hread ⊢
        rw [hread, Option.map_id']
  plain _ hmark := readLongBasic_cons (Or.inl (by decide)) hmark
  mark _ := by rw [readLongBasic]

/-! ## All forms -/

section

variable {cs rest : List Char} {text : String}

theorem skipNewline_of_isPlain {c : Char} (h : isPlain c) (cs : List Char) :
    skipNewline (c :: cs) = c :: cs := by
  have hline := ne_newline_of_isPlain h
  simp [skipNewline, newline?, hline]

theorem IsOpening.skipNewline_append {opening written : List Char} (h : IsOpening opening written)
    {mark : Char} (hmark : isPlain mark) (rest : List Char) :
    skipNewline (opening ++ (written ++ mark :: rest)) = written ++ mark :: rest := by
  rcases h with hend | ⟨rfl, hfirst⟩
  · cases hend <;> rfl
  · rcases written with - | ⟨c, written⟩
    · exact skipNewline_of_isPlain hmark rest
    · exact skipNewline_of_isPlain (hfirst c rfl) _

/-- A text on one line reads back as a name. -/
theorem IsShortQuote.readName_append (h : IsShortQuote cs text) (rest : List Char) :
    readName (cs ++ rest) = some (text, rest) := by
  cases h with
  | basic h =>
      simp only [List.cons_append, List.append_assoc, List.nil_append]
      rw [readName, h.readBasic_append]
      rfl
  | literal h =>
      simp only [List.cons_append, List.append_assoc, List.nil_append]
      rw [readName, readLiteral_append h]
      rfl

/-- A text between single marks begins with no long mark. -/
theorem append_ne_mark {quote : Char} {written : List Char}
    (hwritten : ∀ c ∈ written.head?, c ≠ quote) (hrest : rest.head? ≠ some quote) :
    ∀ later, written ++ quote :: rest ≠ quote :: quote :: later := by
  rintro later heq
  rcases written with - | ⟨c, written⟩
  · exact hrest (by rw [(List.cons.inj heq).2]; rfl)
  · exact hwritten c rfl (List.cons.inj heq).1

theorem AreWritten.head?_ne {written : List Char} (h : AreWritten written cs) :
    ∀ c ∈ written.head?, c ≠ '"' := by
  cases h with
  | nil => exact nofun
  | cons h _ =>
      obtain ⟨first, later, rfl, -, hne⟩ := h.exists_cons
      rintro c ⟨⟩
      exact hne

theorem IsShortQuote.readQuoted_append (h : IsShortQuote cs text)
    (hbasic : rest.head? ≠ some '"') (hliteral : rest.head? ≠ some '\'') :
    readQuoted (cs ++ rest) = some (text, rest) := by
  cases h with
  | basic h =>
      have hmark := append_ne_mark h.head?_ne hbasic
      simp only [List.cons_append, List.append_assoc, List.nil_append]
      rw [readQuoted, h.readBasic_append]
      · rfl
      · exact hmark
  | literal h =>
      have hmark := append_ne_mark (fun c hc => (h c (List.mem_of_head? hc)).2) hliteral
      simp only [List.cons_append, List.append_assoc, List.nil_append]
      rw [readQuoted, readLiteral_append h]
      · rfl
      · exact hmark

/-- A text reads back from its quotes, if no other quote follows. -/
theorem IsQuote.readQuoted_append (h : IsQuote cs text) (hbasic : rest.head? ≠ some '"')
    (hliteral : rest.head? ≠ some '\'') : readQuoted (cs ++ rest) = some (text, rest) := by
  cases h with
  | short h => exact h.readQuoted_append hbasic hliteral
  | longBasic hopening h =>
      simp only [List.cons_append, List.append_assoc, List.nil_append]
      rw [readQuoted, hopening.skipNewline_append (by decide)]
      exact congrArg _ (h.read_append readsParts_readLongBasic hbasic)
  | longLiteral hopening h =>
      simp only [List.cons_append, List.append_assoc, List.nil_append]
      rw [readQuoted, hopening.skipNewline_append (by decide)]
      exact congrArg _ (h.read_append readsParts_readLongLiteral hliteral)

end

end DefiniteIntegral.Toml
