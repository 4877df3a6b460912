import DefiniteIntegral.Proofs.Expr.Scanning
import DefiniteIntegral.Proofs.Expr.Vocabulary
import DefiniteIntegral.Proofs.Number.Notation

/-! # Blanks between lexemes

No lexeme reaches across a blank. Texts with blanks between them are therefore scanned one after
the other, and blanks at the ends of a text, or next to other blanks, leave its tree as it is. -/

namespace DefiniteIntegral

variable {α : Type}

/-! ## The characters of lexemes -/

section Characters

variable {c : Char}

theorem not_isBlank_of_isNameCharacter (h : isNameCharacter c) : ¬ isBlank c := by
  simp only [isNameCharacter, Char.isAlphanum, Bool.or_eq_true, decide_eq_true_eq,
    isAlpha_iff_toNat, isDigit_iff_toNat] at h
  rcases h with (h | h) | rfl
  · exact not_isBlank_of_range (by omega) (by omega)
  · exact not_isBlank_of_range (by omega) (by omega)
  · decide

theorem not_isBlank_of_isDigit (h : c.isDigit) : ¬ isBlank c :=
  not_isBlank_of_isNameCharacter (by simp [isNameCharacter, Char.isAlphanum, h])

theorem IsFraction.not_isBlank {fraction digits : List Char} (h : IsFraction fraction digits)
    (hc : c ∈ fraction) : ¬ isBlank c := by
  rcases h.isDigit_or_eq c hc with hdigit | rfl
  · exact not_isBlank_of_isDigit hdigit
  · decide

theorem IsExponent.not_isBlank {exponent : List Char} {power : Option (Bool × List Char)}
    (h : IsExponent exponent power) (hc : c ∈ exponent) : ¬ isBlank c := by
  have hmarks : ∀ mark ∈ ['e', 'E'], ¬ isBlank mark := by
    simp [isBlank, blankRanges]
  have hsigns : ∀ sign ∈ [[], ['+'], ['-']], ∀ d ∈ sign, ¬ isBlank d := by
    simp [isBlank, blankRanges]
  cases h with
  | absent => cases hc
  | marked hmark hsign hdigits hne =>
      rcases List.mem_cons.mp hc with rfl | hc
      · exact hmarks c hmark
      · rcases List.mem_append.mp hc with hc | hc
        · exact hsigns _ hsign c hc
        · exact not_isBlank_of_isDigit (hdigits c hc)

theorem IsNumber.not_isBlank {w : List Char} {n : Numeral} (h : IsNumber w n) (hc : c ∈ w) :
    ¬ isBlank c := by
  obtain ⟨hwhole, hfraction, hexponent, -⟩ := h
  rcases List.mem_append.mp hc with hc | hc
  · exact not_isBlank_of_isDigit (hwhole c hc)
  · rcases List.mem_append.mp hc with hc | hc
    · exact hfraction.not_isBlank hc
    · exact hexponent.not_isBlank hc

theorem not_isBlank_of_mem_symbols {w : List Char} {token : Token α} (h : (w, token) ∈ symbols)
    (hc : c ∈ w) : ¬ isBlank c := by
  have hcharacters : ∀ d ∈ ['+', '-', '*', '/', '(', ')'], ¬ isBlank d := by
    simp [isBlank, blankRanges]
  refine hcharacters c ?_
  simp only [symbols, List.mem_cons, Prod.mk.injEq, List.not_mem_nil, or_false] at h
  rcases h with ⟨rfl, -⟩ | ⟨rfl, -⟩ | ⟨rfl, -⟩ | ⟨rfl, -⟩ | ⟨rfl, -⟩ | ⟨rfl, -⟩ | ⟨rfl, -⟩ <;>
    simp_all

end Characters

/-! ## Scanning up to a blank -/

section Scanning

variable [Elementary α] {cs w rest tail : List Char} {b : Char}
  {reading : Except ScanFault (Option (Token α))} {pieces : List (List Char × Option (Token α))}
  {fault : ScanFault} {position : Nat}

/-- A blank is a lexeme of its own. -/
theorem Lexeme.eq_singleton_of_isBlank (h : Lexeme w reading) (hb : isBlank b) (hmem : b ∈ w) :
    w = [b] := by
  cases h with
  | blank => rw [List.mem_singleton.mp hmem]
  | symbol h => exact absurd hb (not_isBlank_of_mem_symbols h hmem)
  | name hc hcs =>
      have hcharacter : isNameCharacter b :=
        (List.forall_mem_cons (p := fun d => isNameCharacter d)).mpr
          ⟨isNameCharacter_of_isNameStart hc, hcs⟩ b hmem
      exact absurd hb (not_isBlank_of_isNameCharacter hcharacter)
  | number h => exact absurd hb (h.not_isBlank hmem)
  | digitless h => exact absurd hb (h.not_isBlank hmem)

theorem longest_blank (hb : isBlank b) (tail : List Char) :
    Longest (α := α) (b :: tail) [b] (.ok none) tail where
  append_eq := rfl
  lexeme := .blank hb
  longest other meaning hother hprefix := by
    cases other with
    | nil => exact absurd rfl hother.ne_nil
    | cons d ds =>
        obtain ⟨rfl, -⟩ := List.cons_prefix_cons.mp hprefix
        rw [hother.eq_singleton_of_isBlank hb List.mem_cons_self]

/-- What follows a blank has no part in the lexemes before it. -/
theorem Longest.append_blank (h : Longest cs w reading rest) (hb : isBlank b) (tail : List Char) :
    Longest (cs ++ b :: tail) w reading (rest ++ b :: tail) where
  append_eq := by rw [← List.append_assoc, h.append_eq]
  lexeme := h.lexeme
  longest other meaning hother hprefix := by
    by_cases hshort : other.length ≤ cs.length
    · exact h.longest other meaning hother
        (List.prefix_of_prefix_length_le hprefix (List.prefix_append cs _) hshort)
    · -- A longer one would have the blank in it, next to the first character of the text.
      have hlong : cs ++ [b] <+: other := by
        refine List.prefix_of_prefix_length_le ⟨tail, by simp⟩ hprefix ?_
        rw [List.length_append, List.length_singleton]
        omega
      have hmem : b ∈ other := hlong.subset (by simp)
      have hlength := hlong.length_le
      rw [hother.eq_singleton_of_isBlank hb hmem, List.length_append] at hlength
      have hpositive := List.length_pos_of_ne_nil h.lexeme.ne_nil
      rw [← h.append_eq, List.length_append] at hlength
      simp only [List.length_singleton] at hlength
      omega

theorem Scan.append_blank (h : Scan cs pieces rest) (hb : isBlank b) (tail : List Char) :
    Scan (cs ++ b :: tail) pieces (rest ++ b :: tail) := by
  induction h with
  | start cs => exact .start _
  | next h _ ih => exact .next (h.append_blank hb tail) ih

theorem Refused.append_blank (h : Refused (α := α) position cs fault) (hb : isBlank b)
    (tail : List Char) : Refused (α := α) position (cs ++ b :: tail) fault := by
  cases h with
  | stranger h => exact .stranger h
  | digitless hw hn h => exact .digitless hw hn (h.append_blank hb tail)

theorem Scan.trans {others : List (List Char × Option (Token α))} {middle : List Char}
    (h : Scan cs pieces middle) (h' : Scan middle others rest) :
    Scan cs (pieces ++ others) rest := by
  induction h with
  | start => exact h'
  | next h _ ih => exact .next h (ih h')

/-- Blanks are scanned one by one, and stand for nothing. -/
theorem exists_scan_blanks {blanks : List Char} (hblanks : ∀ b ∈ blanks, isBlank b)
    (tail : List Char) :
    ∃ pieces : List (List Char × Option (Token α)),
      Scan (blanks ++ tail) pieces tail ∧ pieces.filterMap Prod.snd = [] := by
  induction blanks with
  | nil => exact ⟨[], .start tail, rfl⟩
  | cons b blanks ih =>
      obtain ⟨hb, hblanks⟩ := List.forall_mem_cons.mp hblanks
      obtain ⟨pieces, hscan, hnone⟩ := ih hblanks
      exact ⟨([b], none) :: pieces, .next (longest_blank hb _) hscan, by simpa using hnone⟩

end Scanning

/-! ## Positions -/

/-- A fault as it is found when `n` more characters stand before the text. -/
def ScanFault.shift (n : Nat) : ScanFault → ScanFault
  | .unexpectedCharacter c position => .unexpectedCharacter c (n + position)
  | .invalidNumber lexeme => .invalidNumber lexeme

section Positions

variable [Elementary α] {cs : List Char} {fault : ScanFault} {position : Nat}

theorem Refused.shift (h : Refused (α := α) position cs fault) (n : Nat) :
    Refused (α := α) (n + position) cs (fault.shift n) := by
  cases h with
  | stranger h => exact .stranger h
  | digitless hw hn h => exact .digitless hw hn h

theorem tokensFrom_add (n position : Nat) (cs : List Char) :
    (tokensFrom (n + position) cs : Except ScanFault (List (Token α))) =
      (tokensFrom position cs).mapError (ScanFault.shift n) := by
  obtain ⟨pieces, rest, hscan, rfl | ⟨fault, hrefused⟩⟩ := exists_scan (α := α) cs position
  · rw [hscan.tokensFrom_eq, hscan.tokensFrom_eq, tokensFrom, tokensFrom]
    rfl
  · have hshifted := hrefused.shift n
    rw [← Nat.add_assoc] at hshifted
    rw [hscan.tokensFrom_eq, hscan.tokensFrom_eq, hrefused.tokensFrom_eq, hshifted.tokensFrom_eq]
    rfl

end Positions

/-! ## Texts with blanks between them -/

/-- A text of blanks, at least one of them. -/
structure IsGap (w : String) : Prop where
  ne_empty : w ≠ ""
  blank : ∀ c ∈ w.toList, isBlank c

theorem IsGap.exists_cons {w : String} (h : IsGap w) :
    ∃ b blanks, w.toList = b :: blanks ∧ isBlank b ∧ ∀ c ∈ blanks, isBlank c := by
  obtain ⟨b, blanks, hw⟩ := List.exists_cons_of_ne_nil (mt String.toList_eq_nil_iff.mp h.ne_empty)
  have hblank := h.blank
  rw [hw] at hblank
  obtain ⟨hb, hblanks⟩ := List.forall_mem_cons.mp hblank
  exact ⟨b, blanks, hw, hb, hblanks⟩

section Texts

variable [Elementary α] {s w t : String} {ts tokens : List (Token α)} {fault : ScanFault}

theorem exists_append_eof (h : tokenize s = .ok tokens) : ∃ ts, tokens = ts ++ [.eof] := by
  obtain ⟨pieces, -, htokens⟩ := tokensFrom_eq_ok_iff.mp h
  exact ⟨_, htokens⟩

/-- If the first text has tokens, those of the second one follow, or its fault, further on. -/
theorem tokenize_append_of_ok (hw : IsGap w) (hs : tokenize s = .ok (ts ++ [.eof])) (t : String) :
    tokenize (s ++ w ++ t) =
      ((tokenize t).mapError (ScanFault.shift (s ++ w).length)).map (ts ++ ·) := by
  obtain ⟨b, blanks, hcons, hb, hblanks⟩ := hw.exists_cons
  obtain ⟨pieces, hscan, hts⟩ := tokensFrom_eq_ok_iff.mp hs
  obtain rfl := List.append_cancel_right hts
  obtain ⟨others, hothers, hnone⟩ :=
    exists_scan_blanks (α := α) (List.forall_mem_cons.mpr ⟨hb, hblanks⟩) t.toList
  have hwhole : Scan (s ++ w ++ t).toList (pieces ++ others) t.toList := by
    have hfirst := hscan.append_blank hb (blanks ++ t.toList)
    rw [String.toList_append, String.toList_append, hcons, List.append_assoc]
    exact hfirst.trans hothers
  have hlength : ((pieces ++ others).flatMap Prod.fst).length = (s ++ w).length := by
    have happend := hwhole.append_eq
    rw [String.toList_append] at happend
    rw [List.append_cancel_right happend, String.length_toList]
  rw [tokenize, hwhole.tokensFrom_eq, List.filterMap_append, hnone, List.append_nil, hlength,
    Nat.zero_add, ← Nat.add_zero (s ++ w).length, tokensFrom_add]
  rfl

/-- If the first text has a fault, the scan comes no further. -/
theorem tokenize_append_of_error (hw : IsGap w)
    (hs : (tokenize s : Except ScanFault (List (Token α))) = .error fault) (t : String) :
    (tokenize (s ++ w ++ t) : Except ScanFault (List (Token α))) = .error fault := by
  obtain ⟨b, blanks, hcons, hb, -⟩ := hw.exists_cons
  obtain ⟨pieces, rest, hscan, hrefused⟩ := tokensFrom_eq_error_iff.mp hs
  have htext : (s ++ w ++ t).toList = s.toList ++ b :: (blanks ++ t.toList) := by
    simp [hcons]
  rw [tokenize, htext]
  exact tokensFrom_eq_error_iff.mpr
    ⟨pieces, _, hscan.append_blank hb _, hrefused.append_blank hb _⟩

theorem tokenize_append_eq_ok_iff (hw : IsGap w) :
    tokenize (s ++ w ++ t) = .ok tokens ↔
      ∃ ts us, tokenize s = .ok (ts ++ [.eof]) ∧ tokenize t = .ok (us ++ [.eof]) ∧
        tokens = ts ++ us ++ [.eof] := by
  constructor
  · intro h
    cases hs : (tokenize s : Except ScanFault (List (Token α))) with
    | error fault =>
        rw [tokenize_append_of_error hw hs t] at h
        cases h
    | ok found =>
        obtain ⟨ts, rfl⟩ := exists_append_eof hs
        rw [tokenize_append_of_ok hw hs t] at h
        obtain ⟨others, ht, rfl⟩ := map_eq_ok_iff.mp h
        have ht := mapError_eq_ok_iff.mp ht
        obtain ⟨us, rfl⟩ := exists_append_eof ht
        exact ⟨ts, us, rfl, ht, (List.append_assoc ts us _).symm⟩
  · rintro ⟨ts, us, hs, ht, rfl⟩
    rw [tokenize_append_of_ok hw hs t, ht, List.append_assoc]
    rfl

theorem tokenize_empty : tokenize "" = .ok ([.eof] : List (Token α)) := by
  rw [tokenize, String.toList_empty, tokensFrom]

theorem tokenize_gap_append_eq_ok_iff (hw : IsGap w) :
    tokenize (w ++ t) = .ok tokens ↔ tokenize t = .ok tokens := by
  have hnothing : tokenize ("" ++ w ++ t) = .ok tokens ↔ _ := tokenize_append_eq_ok_iff hw
  rw [String.empty_append, tokenize_empty] at hnothing
  rw [hnothing]
  constructor
  · rintro ⟨ts, us, hts, ht, rfl⟩
    obtain rfl : [] = ts := List.append_cancel_right (Except.ok.inj hts)
    exact ht
  · intro ht
    obtain ⟨us, rfl⟩ := exists_append_eof ht
    exact ⟨[], us, rfl, ht, rfl⟩

theorem tokenize_append_gap_eq_ok_iff (hw : IsGap w) :
    tokenize (s ++ w) = .ok tokens ↔ tokenize s = .ok tokens := by
  have hnothing : tokenize (s ++ w ++ "") = .ok tokens ↔ _ := tokenize_append_eq_ok_iff hw
  rw [String.append_empty, tokenize_empty] at hnothing
  rw [hnothing]
  constructor
  · rintro ⟨ts, us, hs, hus, rfl⟩
    obtain rfl : [] = us := List.append_cancel_right (Except.ok.inj hus)
    rwa [List.append_nil]
  · intro hs
    obtain ⟨ts, rfl⟩ := exists_append_eof hs
    exact ⟨ts, [], hs, rfl, by rw [List.append_nil]⟩

/-- Texts with blanks between them have the tokens of the one and then those of the other; where the
second one has a character that begins no lexeme, it is found behind all that stands before it. So
the tree of a text stays the same, or there is none as before, with blanks at the ends, and with
other blanks where there are some. -/
theorem tokenize_separated (hw : IsGap w) :
    (∀ ts us : List (Token α), tokenize s = .ok (ts ++ [.eof]) → tokenize t = .ok (us ++ [.eof]) →
      tokenize (s ++ w ++ t) = .ok (ts ++ us ++ [.eof])) ∧
    (∀ (ts : List (Token α)) (c : Char) (position : Nat), tokenize s = .ok ts →
      (tokenize t : Except ScanFault (List (Token α))) =
        .error (.unexpectedCharacter c position) →
      (tokenize (s ++ w ++ t) : Except ScanFault (List (Token α))) =
        .error (.unexpectedCharacter c ((s ++ w).length + position))) ∧
    (∀ tree : Expr α, Integrand.readTree (w ++ t) = .ok tree ↔ Integrand.readTree t = .ok tree) ∧
    (∀ tree : Expr α, Integrand.readTree (s ++ w) = .ok tree ↔ Integrand.readTree s = .ok tree) ∧
    (∀ v, IsGap v → ∀ tree : Expr α,
      Integrand.readTree (s ++ v ++ t) = .ok tree ↔
        Integrand.readTree (s ++ w ++ t) = .ok tree) := by
  refine ⟨fun ts us hs ht => ?_, fun ts c position hs ht => ?_, fun tree => ?_, fun tree => ?_,
    fun v hv tree => ?_⟩
  · exact (tokenize_append_eq_ok_iff hw).mpr ⟨ts, us, hs, ht, rfl⟩
  · obtain ⟨ts, rfl⟩ := exists_append_eof hs
    rw [tokenize_append_of_ok hw hs t, ht]
    rfl
  · simp only [Integrand.readTree_eq_ok_iff, tokenize_gap_append_eq_ok_iff hw]
  · simp only [Integrand.readTree_eq_ok_iff, tokenize_append_gap_eq_ok_iff hw]
  · simp only [Integrand.readTree_eq_ok_iff, tokenize_append_eq_ok_iff hv,
      tokenize_append_eq_ok_iff hw]

/-- A text that ends in a mark and a sign without digits, one that begins with an operator, and one
with a foreign character, behind a blank outside of ASCII. -/
theorem tokenize_separated_sign :
    tokenize ("2e+" ++ " \u2003" ++ "*1.") =
      .ok [.number (Elementary.ofDecimal ⟨2, 0⟩ : Float), .name "e", .plus, .star,
        .number (Elementary.ofDecimal ⟨1, 0⟩), .eof] ∧
    (tokenize ("2e+" ++ " \u2003" ++ "3 #") : Except ScanFault (List (Token Float))) =
      .error (.unexpectedCharacter '#' 7) := by
  -- What a numeral stands for is left alone here: both sides have it as it is.
  have hread : ∀ (α : Type) [Elementary α],
      tokenize "2e+" = .ok
        ([.number (Elementary.ofDecimal ⟨2, 0⟩ : α), .name "e", .plus] ++ [.eof]) ∧
      tokenize "*1." = .ok
        ([.star, .number (Elementary.ofDecimal ⟨1, 0⟩ : α)] ++ [.eof]) ∧
      (tokenize "3 #" : Except ScanFault (List (Token α))) =
        .error (.unexpectedCharacter '#' 2) := by
    intro α _
    refine ⟨?_, ?_, ?_⟩ <;> cbv
  obtain ⟨hs, ht, hforeign⟩ := hread Float
  have hgap : IsGap " \u2003" := ⟨by decide, by simp [isBlank, blankRanges]⟩
  exact ⟨(tokenize_separated hgap).1 _ _ hs ht, (tokenize_separated hgap).2.1 _ _ _ hs hforeign⟩

end Texts

end DefiniteIntegral
