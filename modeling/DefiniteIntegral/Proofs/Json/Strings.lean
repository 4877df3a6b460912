import DefiniteIntegral.Json.Value
import DefiniteIntegral.Proofs.Json.Grammar

/-! # Strings in JSON texts

The units of a string are read as they are written, and the text of a string is the one that its
units stand for. A text that is written with escapes is a string of that text. -/

namespace DefiniteIntegral.Json

/-! ## Texts of units -/

section Units

variable {units : List StringUnit} {text : List Char} {n : Nat}

theorem isValidChar_toNat (c : Char) : c.toNat.isValidChar :=
  c.valid

theorem toNat_ofNat_of_isValidChar (h : n.isValidChar) : (Char.ofNat n).toNat = n := by
  rw [Char.ofNat, dif_pos h]
  rfl

theorem joinUnits_code (hhalf : ¬ (0xD800 ≤ n ∧ n < 0xE000)) (units : List StringUnit) :
    joinUnits (.code n :: units) = (joinUnits units).map (Char.ofNat n :: ·) := by
  have hfirst : ¬ (0xD800 ≤ n ∧ n < 0xDC00) := by omega
  have hsecond : ¬ (0xDC00 ≤ n ∧ n < 0xE000) := by omega
  rcases units with _ | ⟨c | m, units⟩
  · simp only [joinUnits, hhalf, ↓reduceIte]
  · simp only [joinUnits, hhalf, ↓reduceIte]
  · rw [joinUnits, if_neg hfirst, if_neg hsecond]

theorem Spells.joinUnits_eq (h : Spells units text) : joinUnits units = some text := by
  induction h with
  | nil => rfl
  | char c h ih => rw [joinUnits, ih, Option.map_some]
  | @code c hc units cs h ih =>
      have hvalid : ¬ (0xD800 ≤ c.toNat ∧ c.toNat < 0xE000) := by
        have := isValidChar_toNat c
        omega
      rw [joinUnits_code hvalid, ih, Option.map_some, Char.ofNat_toNat]
  | @pair c hc units cs h ih =>
      have hvalid := isValidChar_toNat c
      have hcode : 0x10000 + 0x400 * (0xD800 + (c.toNat - 0x10000) / 0x400 - 0xD800) +
          (0xDC00 + (c.toNat - 0x10000) % 0x400 - 0xDC00) = c.toNat := by omega
      rw [joinUnits, if_pos (by omega), if_pos (by omega), ih, Option.map_some, hcode,
        Char.ofNat_toNat]

theorem Spells.ofNat (hhalf : ¬ (0xD800 ≤ n ∧ n < 0xE000)) (hn : n < 0x10000)
    (h : Spells units text) : Spells (.code n :: units) (Char.ofNat n :: text) := by
  have hvalue : (Char.ofNat n).toNat = n :=
    toNat_ofNat_of_isValidChar (by simp only [Nat.isValidChar]; omega)
  have hspells := h.code (c := Char.ofNat n) (by omega)
  rwa [hvalue] at hspells

theorem Spells.ofNat_pair {high low : Nat} (hhigh : 0xD800 ≤ high ∧ high < 0xDC00)
    (hlow : 0xDC00 ≤ low ∧ low < 0xE000) (h : Spells units text) :
    Spells (.code high :: .code low :: units)
      (Char.ofNat (0x10000 + 0x400 * (high - 0xD800) + (low - 0xDC00)) :: text) := by
  obtain ⟨n, hn⟩ : ∃ n, n = 0x10000 + 0x400 * (high - 0xD800) + (low - 0xDC00) := ⟨_, rfl⟩
  have hvalue : (Char.ofNat n).toNat = n :=
    toNat_ofNat_of_isValidChar (by simp only [Nat.isValidChar]; omega)
  have hspells := h.pair (c := Char.ofNat n) (by omega)
  have hcodes : 0xD800 + (n - 0x10000) / 0x400 = high ∧ 0xDC00 + (n - 0x10000) % 0x400 = low := by
    omega
  rwa [hvalue, hcodes.1, hcodes.2, hn] at hspells

/-- A code has 16 bits. -/
def StringUnit.IsNarrow : StringUnit → Prop
  | .char _ => True
  | .code n => n < 0x10000

theorem spells_of_joinUnits (hunits : ∀ unit ∈ units, unit.IsNarrow)
    (h : joinUnits units = some text) : Spells units text := by
  induction units using joinUnits.induct generalizing text with
  | case1 =>
      cases h
      exact .nil
  | case2 c units ih =>
      obtain ⟨cs, hcs, rfl⟩ := Option.map_eq_some_iff.mp h
      exact (ih (fun unit hunit => hunits unit (List.mem_cons_of_mem _ hunit)) hcs).char c
  | case3 high low units hhigh hlow ih =>
      rw [joinUnits, if_pos hhigh, if_pos hlow] at h
      obtain ⟨cs, hcs, rfl⟩ := Option.map_eq_some_iff.mp h
      exact (ih (fun unit hunit => hunits unit (by simp [hunit])) hcs).ofNat_pair hhigh hlow
  | case4 high low units hhigh hlow =>
      rw [joinUnits, if_pos hhigh, if_neg hlow] at h
      cases h
  | case5 high low units hhigh hhalf =>
      rw [joinUnits, if_neg hhigh, if_pos hhalf] at h
      cases h
  | case6 high low units hhigh hhalf ih =>
      rw [joinUnits, if_neg hhigh, if_neg hhalf] at h
      obtain ⟨cs, hcs, rfl⟩ := Option.map_eq_some_iff.mp h
      refine (ih (fun unit hunit => hunits unit (List.mem_cons_of_mem _ hunit)) hcs).ofNat
        (by omega) (hunits _ List.mem_cons_self)
  | case7 n units _ hhalf =>
      rw [joinUnits, if_pos hhalf] at h
      · cases h
      · assumption
  | case8 n units _ hhalf ih =>
      rw [joinUnits_code hhalf] at h
      obtain ⟨cs, hcs, rfl⟩ := Option.map_eq_some_iff.mp h
      exact (ih (fun unit hunit => hunits unit (List.mem_cons_of_mem _ hunit)) hcs).ofNat hhalf
        (hunits _ List.mem_cons_self)

end Units

/-! ## Reading units -/

section Reading

variable {cs rest : List Char} {unit : StringUnit} {units : List StringUnit} {c : Char} {n : Nat}

theorem IsHexDigit.lt (h : IsHexDigit c n) : n < 16 := by
  rcases h with h | h
  · exact (List.getElem?_eq_some_iff.mp h).1
  · exact (List.getElem?_eq_some_iff.mp h).1

theorem IsHexDigit.hexValue?_eq (h : IsHexDigit c n) : hexValue? c = some n := by
  have hsmall : ∀ i : Fin 16, "0123456789abcdef".toList[i.val]?.bind hexValue? = some i.val := by
    decide
  have hcapital : ∀ i : Fin 16, "0123456789ABCDEF".toList[i.val]?.bind hexValue? = some i.val := by
    decide
  have hn := h.lt
  rcases h with h | h
  · have hvalue := hsmall ⟨n, hn⟩
    rwa [h] at hvalue
  · have hvalue := hcapital ⟨n, hn⟩
    rwa [h] at hvalue

theorem IsUnit.isNarrow (h : IsUnit cs unit) : unit.IsNarrow := by
  cases h with
  | plain => trivial
  | short => trivial
  | code ha hb hc hd =>
      have := ha.lt
      have := hb.lt
      have := hc.lt
      have := hd.lt
      simp only [StringUnit.IsNarrow]
      omega

theorem AreUnits.isNarrow (h : AreUnits cs units) : ∀ unit ∈ units, unit.IsNarrow := by
  induction h with
  | nil => nofun
  | cons hunit hunits ih => exact List.forall_mem_cons.mpr ⟨hunit.isNarrow, ih⟩

theorem shortEscape?_of_mem {mark : Char} (h : (mark, c) ∈ shortEscapes) :
    shortEscape? mark = some c ∧ mark ≠ 'u' := by
  have hall : ∀ pair ∈ shortEscapes, shortEscape? pair.1 = some pair.2 ∧ pair.1 ≠ 'u' := by decide
  exact hall _ h

theorem IsUnit.readUnits_append (h : IsUnit cs unit) (rest : List Char) :
    readUnits (cs ++ rest) =
      (readUnits rest).map fun (units, rest) => (unit :: units, rest) := by
  cases h with
  | @plain c hcontrol hquote hbackslash =>
      have hplain : ¬ (c.toNat < 0x20 ∨ c = '\\') := by simp [hbackslash, hcontrol]
      rw [List.singleton_append, readUnits, if_neg hplain]
      · cases readUnits rest <;> rfl
      · exact hquote
      · exact fun a b c d rest hc _ => hbackslash hc
      · exact fun c' rest' hc _ => hbackslash hc
  | @short mark c h =>
      obtain ⟨hmark, hcode⟩ := shortEscape?_of_mem h
      simp only [List.cons_append, List.nil_append]
      rw [readUnits]
      · rw [hmark]
        cases readUnits rest <;> rfl
      · exact fun a b c d rest hc _ => hcode hc
  | @code a b c d i j k l ha hb hc hd =>
      have hnumber : hexNumber? [a, b, c, d] = some (0x1000 * i + 0x100 * j + 0x10 * k + l) := by
        simp only [hexNumber?, List.foldlM_cons, List.foldlM_nil, ha.hexValue?_eq, hb.hexValue?_eq,
          hc.hexValue?_eq, hd.hexValue?_eq, Option.map_some, Option.bind_eq_bind, Option.bind_some]
        exact congrArg some (by omega)
      simp only [List.cons_append, List.nil_append]
      rw [readUnits, hnumber]
      cases readUnits rest <;> rfl

theorem AreUnits.readUnits_append (h : AreUnits cs units) (rest : List Char) :
    readUnits (cs ++ '"' :: rest) = some (units, rest) := by
  induction h with
  | nil => rfl
  | cons hunit hunits ih => rw [List.append_assoc, hunit.readUnits_append, ih, Option.map_some]

theorem isString_of_spells {text : String} (hunits : AreUnits cs units)
    (hspells : Spells units text.toList) : IsString cs (some text) := by
  refine .intro hunits fun t => ⟨?_, fun h => ?_⟩
  · rintro ⟨⟩
    exact hspells
  · have hjoin := h.joinUnits_eq
    rw [hspells.joinUnits_eq] at hjoin
    exact congrArg some (String.toList_injective (Option.some.inj hjoin))

theorem IsString.exists_readUnits {text : Option String} (h : IsString cs text) (rest : List Char) :
    ∃ units, readUnits (cs ++ '"' :: rest) = some (units, rest) ∧
      (joinUnits units).map String.ofList = text := by
  obtain ⟨hunits, htext⟩ := h
  rename_i units
  refine ⟨units, hunits.readUnits_append rest, ?_⟩
  cases hjoin : joinUnits units with
  | none =>
      cases text with
      | none => rfl
      | some t =>
          rw [((htext t).mp rfl).joinUnits_eq] at hjoin
          cases hjoin
  | some cs =>
      have hspells := spells_of_joinUnits hunits.isNarrow hjoin
      exact ((htext (String.ofList cs)).mpr (by rwa [String.toList_ofList])).symm

end Reading

/-! ## Written strings -/

section Written

variable {c : Char} {n : Nat}

theorem isHexDigit_hexDigit (h : n < 16) : IsHexDigit (hexDigit n) n := by
  have hall : ∀ n : Fin 16, "0123456789abcdef".toList[n.val]? = some (hexDigit n) := by decide
  exact .inl (hall ⟨n, h⟩)

/-- A character is written as itself or, below the blank, by its code. -/
theorem exists_isUnit_escape (c : Char) :
    ∃ unit, IsUnit (escape c) unit ∧
      (unit = .char c ∨ (unit = .code c.toNat ∧ c.toNat < 0x20)) := by
  unfold escape
  split_ifs with hquote hbackslash hback htab hline hform hreturn hcontrol
  · exact ⟨.char c, .short (by rw [hquote]; decide), .inl rfl⟩
  · exact ⟨.char c, .short (by rw [hbackslash]; decide), .inl rfl⟩
  · exact ⟨.char c, .short (by rw [hback]; decide), .inl rfl⟩
  · exact ⟨.char c, .short (by rw [htab]; decide), .inl rfl⟩
  · exact ⟨.char c, .short (by rw [hline]; decide), .inl rfl⟩
  · exact ⟨.char c, .short (by rw [hform]; decide), .inl rfl⟩
  · exact ⟨.char c, .short (by rw [hreturn]; decide), .inl rfl⟩
  · have hcode := IsUnit.code (isHexDigit_hexDigit (n := 0) (by decide))
      (isHexDigit_hexDigit (n := 0) (by decide))
      (isHexDigit_hexDigit (n := c.toNat / 16) (by omega))
      (isHexDigit_hexDigit (n := c.toNat % 16) (by omega))
    have hvalue : 0x1000 * 0 + 0x100 * 0 + 0x10 * (c.toNat / 16) + c.toNat % 16 = c.toNat := by
      omega
    rw [hvalue] at hcode
    exact ⟨.code c.toNat, hcode, .inr ⟨rfl, hcontrol⟩⟩
  · exact ⟨.char c, .plain (by omega) hquote hbackslash, .inl rfl⟩

theorem exists_areUnits_escape (text : List Char) :
    ∃ units, AreUnits (text.flatMap escape) units ∧ Spells units text := by
  induction text with
  | nil => exact ⟨[], .nil, .nil⟩
  | cons c text ih =>
      obtain ⟨units, hunits, hspells⟩ := ih
      obtain ⟨unit, hunit, rfl | ⟨rfl, hcontrol⟩⟩ := exists_isUnit_escape c
      · exact ⟨_, .cons hunit hunits, hspells.char c⟩
      · exact ⟨_, .cons hunit hunits, hspells.code (by omega)⟩

/-- Any text is a string with the escapes that it is written with. -/
theorem isString_escape (text : String) : IsString (text.toList.flatMap escape) (some text) := by
  obtain ⟨units, hunits, hspells⟩ := exists_areUnits_escape text.toList
  exact isString_of_spells hunits hspells

theorem toList_quote (text : String) :
    (quote text).toList = '"' :: (text.toList.flatMap escape ++ ['"']) := by
  simp [quote]

end Written

end DefiniteIntegral.Json
