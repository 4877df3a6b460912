import DefiniteIntegral.Number.Layout
import DefiniteIntegral.Proofs.Number.Numeral
import DefiniteIntegral.Proofs.Number.Shortest
import DefiniteIntegral.Proofs.Toml.Digits

/-! # Written numbers

A layout writes a decimal as a numeral of the same value. The text of a finite number is therefore
read as that number, with its sign. -/

namespace DefiniteIntegral

open Binary64

/-- How a decimal is written: digits without a leading zero, a digit behind the point if there is a
point, and perhaps an exponent. -/
inductive IsDecimal : List Char → Numeral → Prop
  | intro {whole fraction exponent digits : List Char} {power : Option (Bool × List Char)}
      (hwhole : ∀ c ∈ whole, c.isDigit) (hne : whole ≠ [])
      (hzero : whole.head? = some '0' → whole = ['0']) (hfraction : IsFraction fraction digits)
      (hpoint : fraction ≠ ['.']) (hexponent : IsExponent exponent power) :
      IsDecimal (whole ++ (fraction ++ exponent)) ⟨whole, digits, power⟩

theorem IsDecimal.isNumber {w : List Char} {n : Numeral} (h : IsDecimal w n) : IsNumber w n := by
  obtain ⟨hwhole, hne, -, hfraction, -, hexponent⟩ := h
  exact .intro hwhole hfraction hexponent (by simp [hne])

/-! ## Digits -/

section Digits

variable {n k : ℕ}

theorem toList_pushn (c : Char) (k : ℕ) : ("".pushn c k).toList = List.replicate k c := by
  rw [String.pushn_eq_repeat_push]
  induction k with
  | zero => rfl
  | succ k ih => rw [Nat.repeat, String.toList_push, ih, List.replicate_succ']

theorem toList_zeros (k : ℕ) : (zeros k).toList = List.replicate k '0' :=
  toList_pushn '0' k

theorem valueOfDigits_append_zeros (ds : List Char) (k : ℕ) :
    valueOfDigits (ds ++ List.replicate k '0') = valueOfDigits ds * 10 ^ k :=
  calc valueOfDigits (ds ++ List.replicate k '0')
      = Nat.ofDigitChars 10 (List.replicate k '0') (valueOfDigits ds) := Nat.ofDigitChars_append 0
    _ = valueOfDigits ds * 10 ^ k := by rw [Nat.ofDigitChars_replicate_zero, Nat.mul_comm]

theorem valueOfDigits_zeros_append (k : ℕ) (ds : List Char) :
    valueOfDigits (List.replicate k '0' ++ ds) = valueOfDigits ds :=
  calc valueOfDigits (List.replicate k '0' ++ ds)
      = Nat.ofDigitChars 10 ds (Nat.ofDigitChars 10 (List.replicate k '0') 0) :=
        Nat.ofDigitChars_append 0
    _ = valueOfDigits ds := by rw [Nat.ofDigitChars_replicate_zero, Nat.mul_zero]; rfl

theorem head?_toDigits (h : (Nat.toDigits 10 n).head? = some '0') : Nat.toDigits 10 n = ['0'] := by
  by_cases hn : n = 0
  · rw [hn]
    rfl
  · exact absurd h (Toml.head?_toDigits_ne_zero hn)

theorem isDigit_of_mem_zeros : ∀ c ∈ List.replicate k '0', c.isDigit := fun c hc => by
  rw [List.eq_of_mem_replicate hc]
  rfl

end Digits

/-! ## Decimals -/

section Decimals

variable {layout : Layout} {d : Decimal} {wholeEnd plus : String} {digits places : ℕ}

theorem Decimal.real_shift (n k : ℕ) (e : ℤ) :
    Decimal.real ⟨n * 10 ^ k, e⟩ = Decimal.real ⟨n, e + k⟩ := by
  simp only [Decimal.real]
  rw [zpow_add₀ (by norm_num : (10 : ℝ) ≠ 0), zpow_natCast]
  push_cast
  ring

/-- Digits with a point before the last of them are a numeral in units of the last place. -/
theorem isDecimal_split {ds : List Char} (hdigits : ∀ c ∈ ds, c.isDigit) (hplaces : 0 < places)
    (hlength : places < ds.length)
    (hzero : (ds.take (ds.length - places)).head? = some '0' →
      ds.take (ds.length - places) = ['0']) :
    ∃ n, IsDecimal (ds.take (ds.length - places) ++ '.' :: ds.drop (ds.length - places)) n ∧
      n.exponent = none ∧ n.value? = some ⟨valueOfDigits ds, -places⟩ := by
  have hwhole : ds.take (ds.length - places) ≠ [] := by
    refine List.ne_nil_of_length_pos ?_
    rw [List.length_take]
    omega
  have hfraction : (ds.drop (ds.length - places)).length = places := by
    rw [List.length_drop]
    omega
  refine ⟨⟨ds.take (ds.length - places), ds.drop (ds.length - places), none⟩, ?_, rfl, ?_⟩
  · rw [← List.append_nil ('.' :: _)]
    refine .intro (fun c hc => hdigits c (List.mem_of_mem_take hc)) hwhole hzero
      (.point fun c hc => hdigits c (List.mem_of_mem_drop hc)) ?_ .absent
    intro hpoint
    rw [(List.cons.inj hpoint).2] at hfraction
    exact absurd hfraction hplaces.ne
  · rw [Numeral.value?, if_neg fun h => hwhole h.1]
    simp only [List.take_append_drop, hfraction, zero_sub]

/-- A text that is filled up with zeros has no more of them before the point than it needs. -/
theorem take_padded_of_head? {text padded : List Char} (hplaces : 0 < places)
    (hpadded : padded = List.replicate (places + 1 - text.length) '0' ++ text)
    (htext : text.head? = some '0' → text = ['0'])
    (h : (padded.take (padded.length - places)).head? = some '0') :
    padded.take (padded.length - places) = ['0'] := by
  have hlength : padded.length = places + 1 - text.length + text.length := by
    rw [hpadded, List.length_append, List.length_replicate]
  by_cases hshort : text.length ≤ places
  · obtain ⟨k, hk⟩ : ∃ k, places + 1 - text.length = k + 1 := ⟨places - text.length, by omega⟩
    have hone : padded.length - places = 1 := by omega
    rw [hone, hpadded, hk, List.replicate_succ]
    rfl
  · have hnone : padded = text := by
      rw [hpadded, Nat.sub_eq_zero_of_le (by omega)]
      rfl
    have hhead : text.head? = some '0' := by
      rwa [List.head?_take, if_neg (by omega), hnone] at h
    rw [htext hhead] at hshort
    exact absurd hplaces hshort

theorem exists_isDecimal_withPoint (digits : ℕ) (hplaces : 0 < places) :
    ∃ n, IsDecimal (withPoint digits places).toList n ∧ n.exponent = none ∧
      n.value? = some ⟨digits, -places⟩ := by
  obtain ⟨text, htext⟩ : ∃ text, text = Nat.toDigits 10 digits := ⟨_, rfl⟩
  obtain ⟨padded, hpadded⟩ : ∃ padded,
      padded = List.replicate (places + 1 - text.length) '0' ++ text := ⟨_, rfl⟩
  have hlist : (withPoint digits places).toList =
      padded.take (padded.length - places) ++ '.' :: padded.drop (padded.length - places) := by
    simp [withPoint, toList_zeros, ← String.length_toList, hpadded, htext]
  have hlength : places < padded.length := by
    rw [hpadded, List.length_append, List.length_replicate]
    omega
  have hdigits : ∀ c ∈ padded, c.isDigit := fun c hc => by
    rw [hpadded, List.mem_append, htext] at hc
    exact hc.elim (isDigit_of_mem_zeros c) (Toml.isDigit_of_mem_toDigits c)
  have hhead : text.head? = some '0' → text = ['0'] := by
    rw [htext]
    exact head?_toDigits
  obtain ⟨n, hn, hpower, hvalue⟩ := isDecimal_split hdigits hplaces hlength
    (take_padded_of_head? hplaces hpadded hhead)
  rw [hpadded, valueOfDigits_zeros_append, htext, Toml.valueOfDigits_toDigits] at hvalue
  rw [hlist]
  exact ⟨n, hn, hpower, hvalue⟩

/-- Only zero is written with a leading zero. -/
theorem eq_zero_of_head?_zeros {k : ℕ} (hzero : digits = 0 → k = 0)
    (h : (Nat.toDigits 10 digits ++ List.replicate k '0').head? = some '0') :
    Nat.toDigits 10 digits ++ List.replicate k '0' = ['0'] := by
  rw [List.head?_append_of_ne_nil _ Nat.toDigits_ne_nil] at h
  have hdigit := head?_toDigits h
  have hnone : digits = 0 := by
    rw [← Toml.valueOfDigits_toDigits digits, hdigit]
    rfl
  rw [hdigit, hzero hnone]
  rfl

/-- Digits and zeros, perhaps with a zero behind the point, are a numeral. -/
theorem exists_isDecimal_zeros (hend : wholeEnd ∈ ["", ".0"]) {k : ℕ}
    (hzero : digits = 0 → k = 0) :
    ∃ n e, IsDecimal (digits.repr ++ zeros k ++ wholeEnd).toList n ∧ n.exponent = none ∧
      n.value? = some e ∧ e.real = Decimal.real ⟨digits, k⟩ := by
  obtain ⟨whole, hdef⟩ : ∃ whole, whole = Nat.toDigits 10 digits ++ List.replicate k '0' :=
    ⟨_, rfl⟩
  have hdigits : ∀ c ∈ whole, c.isDigit := fun c hc => by
    rw [hdef, List.mem_append] at hc
    exact hc.elim (Toml.isDigit_of_mem_toDigits c) (isDigit_of_mem_zeros c)
  have hne : whole ≠ [] := by
    rw [hdef]
    exact List.append_ne_nil_of_left_ne_nil Nat.toDigits_ne_nil _
  have hhead (h : whole.head? = some '0') : whole = ['0'] := by
    rw [hdef] at h ⊢
    exact eq_zero_of_head?_zeros hzero h
  have hvalue : valueOfDigits whole = digits * 10 ^ k := by
    rw [hdef, valueOfDigits_append_zeros, Toml.valueOfDigits_toDigits]
  have hlist : (digits.repr ++ zeros k ++ wholeEnd).toList = whole ++ wholeEnd.toList := by
    simp [toList_zeros, hdef]
  rw [hlist]
  simp only [List.mem_cons, List.not_mem_nil, or_false] at hend
  rcases hend with rfl | rfl
  · refine ⟨⟨whole, [], none⟩, ⟨digits * 10 ^ k, 0⟩,
      .intro hdigits hne hhead .absent nofun .absent, rfl, ?_, ?_⟩
    · simp [Numeral.value?, hne, hvalue]
    · rw [Decimal.real_shift, zero_add]
  · have hpoint : IsFraction ['.', '0'] ['0'] := .point (by simp)
    refine ⟨⟨whole, ['0'], none⟩, ⟨digits * 10 ^ k * 10 ^ 1, -1⟩,
      .intro hdigits hne hhead hpoint (by decide) .absent, rfl, ?_, ?_⟩
    · have hmore := valueOfDigits_append_zeros whole 1
      rw [hvalue] at hmore
      simp only [List.replicate_one] at hmore
      simp [Numeral.value?, hmore]
    · rw [Decimal.real_shift, Decimal.real_shift]
      simp

/-- A decimal without an exponent part is a numeral of the same value. -/
theorem exists_isDecimal_positional (hend : wholeEnd ∈ ["", ".0"])
    (hzero : d.digits = 0 → d.exponent = 0) :
    ∃ n e, IsDecimal (d.positional wholeEnd).toList n ∧ n.exponent = none ∧ n.value? = some e ∧
      e.real = d.real := by
  by_cases hwhole : 0 ≤ d.exponent
  · have hshift (h : d.digits = 0) : d.exponent.toNat = 0 := by
      rw [hzero h]
      rfl
    obtain ⟨n, e, hn, hpower, hvalue, hreal⟩ := exists_isDecimal_zeros hend hshift
    rw [Int.toNat_of_nonneg hwhole] at hreal
    rw [Decimal.positional, if_pos hwhole]
    exact ⟨n, e, hn, hpower, hvalue, hreal⟩
  · have hplaces : 0 < (-d.exponent).toNat := by omega
    obtain ⟨n, hn, hpower, hvalue⟩ := exists_isDecimal_withPoint d.digits hplaces
    have hexponent : (-((-d.exponent).toNat : ℤ)) = d.exponent := by omega
    rw [hexponent] at hvalue
    rw [Decimal.positional, if_neg hwhole]
    exact ⟨n, d, hn, hpower, hvalue, rfl⟩

/-- The exponent behind digits with a point after the first. -/
theorem exists_isExponent (hplus : plus ∈ ["", "+"]) (leading : ℤ) :
    ∃ sign ds, ("e" ++ (if 0 ≤ leading then plus ++ leading.toNat.repr
        else "-" ++ (-leading).toNat.repr)).toList = 'e' :: (sign ++ ds) ∧
      IsExponent ('e' :: (sign ++ ds)) (some (sign = ['-'], ds)) ∧
      (if sign = ['-'] then -(valueOfDigits ds : ℤ) else valueOfDigits ds) = leading := by
  have hmarked {sign : List Char} (hsign : sign ∈ [[], ['+'], ['-']]) (k : ℕ) :
      IsExponent ('e' :: (sign ++ Nat.toDigits 10 k)) (some (sign = ['-'], Nat.toDigits 10 k)) :=
    .marked (by decide) hsign Toml.isDigit_of_mem_toDigits Nat.toDigits_ne_nil
  by_cases hnonneg : 0 ≤ leading
  · simp only [List.mem_cons, List.not_mem_nil, or_false] at hplus
    rcases hplus with rfl | rfl
    · exact ⟨[], Nat.toDigits 10 leading.toNat, by simp [hnonneg], hmarked (by decide) _, by
        simp [Toml.valueOfDigits_toDigits, hnonneg]⟩
    · exact ⟨['+'], Nat.toDigits 10 leading.toNat, by simp [hnonneg], hmarked (by decide) _, by
        simp [Toml.valueOfDigits_toDigits, hnonneg]⟩
  · refine ⟨['-'], Nat.toDigits 10 (-leading).toNat, by simp [hnonneg], hmarked (by decide) _, ?_⟩
    rw [if_pos rfl, Toml.valueOfDigits_toDigits]
    omega

/-- Digits with an exponent part are a numeral. -/
theorem exists_isDecimal_scientific (hplus : plus ∈ ["", "+"]) (hdigits : digits ≠ 0)
    (leading : ℤ) :
    ∃ n, IsDecimal (scientific plus digits leading).toList n ∧
      n.value? = some ⟨digits, leading - (digitCount digits - 1)⟩ := by
  obtain ⟨sign, ds, hlist, hexponent, hshift⟩ := exists_isExponent hplus leading
  have hcount : digitCount digits = (Nat.toDigits 10 digits).length := by
    rw [digitCount, ← String.length_toList, Nat.toList_repr]
  have hvalue := Toml.valueOfDigits_toDigits digits
  have hhead := Toml.head?_toDigits_ne_zero hdigits
  have hall := Toml.isDigit_of_mem_toDigits (n := digits)
  rw [scientific, Nat.toList_repr, String.append_assoc, hcount]
  rcases hmantissa : Nat.toDigits 10 digits with - | ⟨c, - | ⟨d, rest⟩⟩
  · exact absurd hmantissa Nat.toDigits_ne_nil
  · rw [hmantissa] at hvalue hhead hall
    refine ⟨⟨[c], [], some (sign = ['-'], ds)⟩, ?_, ?_⟩
    · rw [String.toList_append, hlist, String.toList_ofList, ← List.nil_append ('e' :: _)]
      exact .intro hall (List.cons_ne_nil _ _) (fun h => absurd h hhead) .absent nofun hexponent
    · simp [Numeral.value?, hvalue, hshift]
  · rw [hmantissa] at hvalue hhead hall
    refine ⟨⟨[c], d :: rest, some (sign = ['-'], ds)⟩, ?_, ?_⟩
    · have hpoint : (String.ofList (c :: '.' :: d :: rest)).toList = [c] ++ '.' :: d :: rest :=
        String.toList_ofList
      rw [String.toList_append, hlist, hpoint, List.append_assoc]
      refine .intro (fun x hx => hall x ?_) (List.cons_ne_nil _ _) (fun h => absurd h hhead)
        (.point fun x hx => hall x (List.mem_cons_of_mem _ hx)) (by simp) hexponent
      rw [List.mem_singleton.mp hx]
      exact List.mem_cons_self
    · simp [Numeral.value?, hvalue, hshift]

/-- A layout that can be read back: what it adds to a numeral belongs to the notation. -/
structure Layout.Readable (layout : Layout) : Prop where
  wholeEnd : layout.wholeEnd ∈ ["", ".0"]
  plus : layout.plus ∈ ["", "+"]

theorem Layout.readable_plain : Layout.plain.Readable :=
  ⟨by decide, by decide⟩

theorem Layout.readable_json : Layout.json.Readable :=
  ⟨by decide, by decide⟩

/-- The text of a decimal is a numeral of the same value, in a plain layout without an exponent. -/
theorem exists_isDecimal_writeDecimal (h : layout.Readable)
    (hzero : d.digits = 0 → d.exponent = 0) :
    ∃ n e, IsDecimal (layout.writeDecimal d).toList n ∧
      (layout.positional = none → n.exponent = none) ∧ n.value? = some e ∧ e.real = d.real := by
  obtain ⟨n, e, hn, hpower, hvalue, hreal⟩ := exists_isDecimal_positional h.wholeEnd hzero
  unfold Layout.writeDecimal
  split
  · exact ⟨n, e, hn, fun _ => hpower, hvalue, hreal⟩
  · rename_i hbounds
    split_ifs with hplain
    · exact ⟨n, e, hn, fun _ => hpower, hvalue, hreal⟩
    · -- The exponent that is written is the one of the leading digit.
      obtain ⟨hdigits, -⟩ := not_or.mp hplain
      obtain ⟨n, hn, hvalue⟩ := exists_isDecimal_scientific h.plus hdigits d.leading
      have hexponent : d.leading - (digitCount d.digits - 1) = d.exponent := by
        rw [Decimal.leading]
        ring
      rw [hexponent] at hvalue
      exact ⟨n, d, hn, fun hnone => absurd (hbounds.symm.trans hnone) (Option.some_ne_none _),
        hvalue, rfl⟩

end Decimals

/-! ## Numbers -/

section Numbers

variable {layout : Layout} {tie : Tie} {x : Float}

theorem shortest_of_significand_eq_zero (h : (decode x).significand = 0) :
    shortest tie x = ⟨0, 0⟩ := by
  rw [shortest]
  exact if_pos h

theorem Decimal.digits_eq_zero_iff {d : Decimal} : d.digits = 0 ↔ d.real = 0 := by
  rw [Decimal.real, mul_eq_zero, or_iff_left (ten_zpow_pos d.exponent).ne', Nat.cast_eq_zero]

theorem shortest_eq_of_digits_eq_zero (hx : x.isFinite) (h : (shortest tie x).digits = 0) :
    shortest tie x = ⟨0, 0⟩ := by
  by_cases hm : (decode x).significand = 0
  · exact shortest_of_significand_eq_zero hm
  · have hpos := Decimal.two_zpow_le_of_inInterval (isCanonical_decode hx).1 (Nat.pos_of_ne_zero hm)
      (inInterval_shortest tie hx hm)
    rw [Decimal.digits_eq_zero_iff.mp h] at hpos
    exact absurd hpos (not_le.mpr (zpow_pos (by norm_num) _))

/-- A decimal with the value of the shortest one is read as the number without its sign. -/
theorem toFloat_of_real_eq {d : Decimal} (hx : x.isFinite) (h : d.real = (shortest tie x).real) :
    d.toFloat =
      Float.ofBits (UInt64.ofNat (bitsOf (decode x).significand (decode x).exponent)) := by
  obtain ⟨hcanonical, hmost⟩ := isCanonical_decode hx
  by_cases hm : (decode x).significand = 0
  · have hdigits : d.digits = 0 := by
      rw [Decimal.digits_eq_zero_iff, h, shortest_of_significand_eq_zero hm,
        ← Decimal.digits_eq_zero_iff]
    have hexponent : (decode x).exponent = -1074 :=
      hcanonical.full.resolve_right (by omega)
    rw [hm, hexponent, Decimal.toFloat, if_pos (.inl hdigits)]
    rfl
  · refine Decimal.toFloat_eq_ofBits hcanonical hmost (Nat.pos_of_ne_zero hm) ?_
    rw [h]
    exact inInterval_shortest tie hx hm

theorem isFinite_iff : x.isFinite ↔ x.isNaN = false ∧ x.isInf = false := by
  change x.toModel.unpack.isFinite = true ↔
    x.toModel.unpack.isNaN = false ∧ x.toModel.unpack.isInf = false
  cases x.toModel.unpack with
  | notANumber => exact iff_of_false nofun (fun h => nomatch h.1)
  | infinity s => exact iff_of_false nofun (fun h => nomatch h.2)
  | zero s => exact iff_of_true rfl ⟨rfl, rfl⟩
  | finite s m e hpos => exact iff_of_true rfl ⟨rfl, rfl⟩

/-- A finite number is written as a numeral, after a minus sign if it is negative. -/
theorem exists_isDecimal_write (h : layout.Readable) (hx : x.isFinite) :
    ∃ cs n e,
      (layout.write x).toList = (if (decode x).negative then ['-'] else []) ++ cs ∧
      IsDecimal cs n ∧ (layout.positional = none → n.exponent = none) ∧ n.value? = some e ∧
      e.real = (shortest layout.tie x).real := by
  obtain ⟨n, e, hn, hpower, hvalue, hreal⟩ :=
    exists_isDecimal_writeDecimal (d := shortest layout.tie x) h fun hzero => by
      rw [shortest_eq_of_digits_eq_zero hx hzero]
  refine ⟨_, n, e, ?_, hn, hpower, hvalue, hreal⟩
  rw [Layout.write, Layout.withSign, (isFinite_iff.mp hx).1, (isFinite_iff.mp hx).2]
  cases (decode x).negative with
  | true => exact String.toList_append
  | false => rfl

/-- The text of a finite number is read as that number. -/
theorem readFloat?_write (h : layout.Readable) (hx : x.isFinite) :
    readFloat? (layout.write x) = some x := by
  obtain ⟨cs, n, e, htext, hn, -, hvalue, hreal⟩ := exists_isDecimal_write h hx
  have hmagnitude := hn.isNumber.readMagnitude?_eq
  rw [hvalue, Option.map_some, toFloat_of_real_eq hx hreal] at hmagnitude
  have hsign := eq_ofBits_bitsOf hx
  simp only at hsign
  -- A minus sign is taken off before the numeral is read, so the two signs go different ways.
  cases hnegative : (decode x).negative with
  | true =>
      rw [hnegative, if_pos rfl] at htext hsign
      rw [readFloat?, htext]
      change (readMagnitude? cs).map (- ·) = some x
      rw [hmagnitude, Option.map_some, ← hsign]
  | false =>
      rw [hnegative, if_neg Bool.false_ne_true] at htext hsign
      have hplain : layout.write x = String.ofList cs := by
        rw [← List.nil_append cs, ← htext, String.ofList_toList]
      rw [hplain, hn.isNumber.readFloat?_eq, ← hn.isNumber.readMagnitude?_eq, hmagnitude, ← hsign]

theorem IsFraction.isDigit_or_eq {fraction digits : List Char} (h : IsFraction fraction digits) :
    ∀ c ∈ fraction, c.isDigit ∨ c = '.' := by
  cases h with
  | absent => simp
  | point hdigits =>
      intro c hc
      rcases List.mem_cons.mp hc with hpoint | hc
      · exact .inr hpoint
      · exact .inl (hdigits c hc)

theorem IsDecimal.isDigit_or_eq {cs : List Char} {n : Numeral} (h : IsDecimal cs n)
    (hpower : n.exponent = none) : ∀ c ∈ cs, c.isDigit ∨ c = '.' := by
  obtain ⟨hwhole, -, -, hfraction, -, hexponent⟩ := h
  cases hexponent with
  | absent =>
      intro c hc
      rw [List.append_nil, List.mem_append] at hc
      rcases hc with hc | hc
      · exact .inl (hwhole c hc)
      · exact hfraction.isDigit_or_eq c hc
  | marked => cases hpower

/-- The text of a finite number in plain notation has no characters but digits, a point and a minus
sign. -/
theorem isDigit_or_mem_plainText (hx : x.isFinite) :
    ∀ c ∈ (plainText x).toList, c.isDigit ∨ c ∈ ['.', '-'] := by
  obtain ⟨cs, n, e, htext, hn, hpower, -, -⟩ := exists_isDecimal_write Layout.readable_plain hx
  intro c hc
  rw [plainText, htext, List.mem_append] at hc
  rcases hc with hsign | hc
  · split_ifs at hsign
    · exact .inr (List.mem_cons_of_mem _ hsign)
    · cases hsign
  · rcases hn.isDigit_or_eq (hpower rfl) c hc with hdigit | rfl
    · exact .inl hdigit
    · exact .inr List.mem_cons_self

end Numbers

end DefiniteIntegral
