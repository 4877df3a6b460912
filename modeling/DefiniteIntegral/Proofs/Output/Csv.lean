import DefiniteIntegral.Output.Format
import DefiniteIntegral.Proofs.Number.Notation
import DefiniteIntegral.Proofs.Text.Pieces

/-! # Samples as rows

The rows of a result are cut back into its samples: a line for each, two fields in each line, and
the fields are read as the numbers that were written, with their signs. -/

namespace DefiniteIntegral

/-- The fields of a row, read as numbers where they are some. -/
def fieldsOf (row : List Char) : List (Option Float) :=
  (pieces ',' row).map fun field => readFloat? (String.ofList field)

/-- Whether the points of a result have a value each, and all of them are finite. -/
structure Result.IsPaired (r : Result Float) : Prop where
  length_eq : r.xs.length = r.ys.length
  points_finite : ∀ x ∈ r.xs, x.isFinite
  values_finite : ∀ y ∈ r.ys, y.isFinite

/-! ## Rows -/

section Rows

variable {x y : Float} {c : Char} {lines : List (List Char)}

/-- The row of a sample without its end. -/
def rowOf (x y : Float) : List Char :=
  (plainText x).toList ++ ',' :: (plainText y).toList

theorem not_mem_plainText (hx : x.isFinite) (hc : c ∈ [',', '\n']) : c ∉ (plainText x).toList := by
  intro hmem
  have hplain := isDigit_or_mem_plainText hx c hmem
  simp only [List.mem_cons, List.not_mem_nil, or_false] at hc
  rcases hc with rfl | rfl
  · simp at hplain
  · simp at hplain

theorem not_mem_rowOf (hx : x.isFinite) (hy : y.isFinite) : '\n' ∉ rowOf x y := by
  intro hmem
  rcases List.mem_append.mp hmem with hmem | hmem
  · exact not_mem_plainText hx (by decide) hmem
  · rcases List.mem_cons.mp hmem with hcomma | hmem
    · cases hcomma
    · exact not_mem_plainText hy (by decide) hmem

/-- A row has two fields, and they are read as the numbers of the sample. -/
theorem fieldsOf_rowOf (hx : x.isFinite) (hy : y.isFinite) :
    fieldsOf (rowOf x y) = [some x, some y] := by
  rw [fieldsOf, rowOf, pieces_append_cons (not_mem_plainText hx (by decide)),
    pieces_of_not_mem (not_mem_plainText hy (by decide))]
  simp only [List.map_cons, List.map_nil, String.ofList_toList]
  rw [plainText, plainText, readFloat?_write Layout.readable_plain hx,
    readFloat?_write Layout.readable_plain hy]

/-- Lines are cut where they end, and nothing stands behind the last one. -/
theorem pieces_lines (h : ∀ line ∈ lines, '\n' ∉ line) :
    pieces '\n' (lines.flatMap fun line => line ++ ['\n']) = lines ++ [[]] := by
  induction lines with
  | nil => rfl
  | cons line lines ih =>
      obtain ⟨hline, hlines⟩ := List.forall_mem_cons.mp h
      rw [List.flatMap_cons, List.append_assoc, List.singleton_append, pieces_append_cons hline,
        ih hlines]
      rfl

theorem toList_csvRow (x y : Float) : (csvRow x y).toList = rowOf x y ++ ['\n'] := by
  simp [csvRow, rowOf]

end Rows

/-! ## Results -/

namespace Result

variable {r s : Result Float}

theorem toList_toCsv (r : Result Float) :
    r.toCsv.toList =
      ("x,y".toList :: (r.xs.zip r.ys).map fun p => rowOf p.1 p.2).flatMap
        fun line => line ++ ['\n'] := by
  have hrows : List.zipWith csvRow r.xs r.ys = (r.xs.zip r.ys).map fun p => csvRow p.1 p.2 :=
    List.map_uncurry_zip_eq_zipWith.symm
  simp only [toCsv, String.toList_append, String.toList_join, hrows, List.flatMap_map,
    toList_csvRow, List.flatMap_cons]
  rfl

theorem IsPaired.finite_of_mem (h : r.IsPaired) {p : Float × Float} (hp : p ∈ r.xs.zip r.ys) :
    p.1.isFinite ∧ p.2.isFinite :=
  ⟨h.points_finite _ (List.of_mem_zip hp).1, h.values_finite _ (List.of_mem_zip hp).2⟩

theorem IsPaired.pieces_toCsv (h : r.IsPaired) :
    pieces '\n' r.toCsv.toList =
      "x,y".toList :: ((r.xs.zip r.ys).map fun p => rowOf p.1 p.2) ++ [[]] := by
  rw [toList_toCsv]
  refine pieces_lines ?_
  rintro line (- | ⟨-, hline⟩)
  · decide
  · obtain ⟨p, hp, rfl⟩ := List.mem_map.mp hline
    exact not_mem_rowOf (h.finite_of_mem hp).1 (h.finite_of_mem hp).2

theorem IsPaired.fieldsOf_rows (h : r.IsPaired) :
    ((r.xs.zip r.ys).map fun p => rowOf p.1 p.2).map fieldsOf =
      (r.xs.zip r.ys).map fun p => [some p.1, some p.2] := by
  rw [List.map_map]
  exact List.map_congr_left fun p hp =>
    fieldsOf_rowOf (h.finite_of_mem hp).1 (h.finite_of_mem hp).2

/-- Results with the same rows have the same samples. -/
theorem IsPaired.eq_of_toCsv_eq (hs : s.IsPaired) (hr : r.IsPaired) (h : s.toCsv = r.toCsv) :
    s.xs = r.xs ∧ s.ys = r.ys := by
  -- The same text is cut into the same rows, and these are read as the samples of either result.
  have hrows := hs.pieces_toCsv
  rw [h, hr.pieces_toCsv] at hrows
  have hsame := List.append_cancel_right (List.cons.inj hrows).2
  have hfields := congrArg (List.map fieldsOf) hsame
  rw [hr.fieldsOf_rows, hs.fieldsOf_rows] at hfields
  have hsamples : r.xs.zip r.ys = s.xs.zip s.ys := by
    refine List.map_injective_iff.mpr ?_ hfields
    rintro ⟨x, y⟩ ⟨x', y'⟩ hpair
    simpa using hpair
  have hunzip := congrArg List.unzip hsamples
  rw [List.unzip_zip hr.length_eq, List.unzip_zip hs.length_eq] at hunzip
  exact ⟨(Prod.mk.inj hunzip).1.symm, (Prod.mk.inj hunzip).2.symm⟩

/-- The rows of a result: a heading, a line for each sample with two fields, which are read as the
point and its value, and nothing behind the last line. Results with other samples have other
rows. -/
theorem toCsv_carries_samples (h : r.IsPaired) :
    (∃ rows, pieces '\n' r.toCsv.toList = "x,y".toList :: rows ++ [[]] ∧
      rows.length = r.xs.length ∧
      rows.map fieldsOf = (r.xs.zip r.ys).map fun p => [some p.1, some p.2]) ∧
    ∀ s : Result Float, s.IsPaired → s.toCsv = r.toCsv → s.xs = r.xs ∧ s.ys = r.ys := by
  refine ⟨⟨_, h.pieces_toCsv, ?_, h.fieldsOf_rows⟩, fun s hs hsame => hs.eq_of_toCsv_eq h hsame⟩
  rw [List.length_map, List.length_zip, ← h.length_eq, min_self]

/-- A zero with a sign, the smallest positive number and the largest one. -/
theorem toCsv_carries_samples_extremes :
    let least := Float.ofBits 1
    let greatest := Float.ofBits 0x7FEFFFFFFFFFFFFF
    let r : Result Float := ⟨0.5, .midpoint, 10, [-0.0, least], [greatest, -0.5], none⟩
    r.IsPaired ∧ ∃ rows, pieces '\n' r.toCsv.toList = "x,y".toList :: rows ++ [[]] ∧
      rows.map fieldsOf = [[some (-0.0), some greatest], [some least, some (-0.5)]] := by
  intro least greatest r
  have hpoints : ∀ x ∈ [-0.0, least], x.isFinite := by
    intro x hx
    simp only [List.mem_cons, List.not_mem_nil, or_false] at hx
    rcases hx with rfl | rfl <;> decide +kernel
  have hvalues : ∀ y ∈ [greatest, -0.5], y.isFinite := by
    intro y hy
    simp only [List.mem_cons, List.not_mem_nil, or_false] at hy
    rcases hy with rfl | rfl <;> decide +kernel
  have hpaired : r.IsPaired := ⟨rfl, hpoints, hvalues⟩
  obtain ⟨⟨rows, hrows, -, hfields⟩, -⟩ := toCsv_carries_samples hpaired
  exact ⟨hpaired, rows, hrows, hfields⟩

end Result

end DefiniteIntegral
