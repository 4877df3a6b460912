import DefiniteIntegral.Proofs.Integration.Outcomes
import DefiniteIntegral.Proofs.Number.Values
import DefiniteIntegral.Proofs.Random.Generator

/-! # Draws from a source

A draw is the top 53 bits of an output of the generator, so that it lies between zero and one. A
source gives the same numbers however they are asked for: batches, of any lengths, are the pieces
of one long batch. -/

namespace DefiniteIntegral

open Binary64

/-! ## Numbers of a stream -/

/-- The top 53 bits of an output. -/
def topBits (output : UInt64) : ℕ :=
  output.toNat / 2 ^ 11

theorem topBits_lt (output : UInt64) : topBits output < 2 ^ 53 := by
  have hlt := output.toNat_lt
  rw [topBits]
  omega

/-- A number is the top bits of an output, in units of `2 ^ -53`. -/
structure IsTopBits (output : UInt64) (x : Float) : Prop where
  bits_lt : topBits output < 2 ^ 53
  value : Value x (topBits output * 2 ^ (-53 : ℤ))
  nonneg : 0 ≤ x
  lt_one : x < 1

theorem representable_topBits (output : UInt64) {e : ℤ} (he : -1074 ≤ e) :
    Representable (topBits output * 2 ^ e) := by
  have hbits : ((topBits output : ℤ)).natAbs < 2 ^ 53 := topBits_lt output
  exact_mod_cast representable_int hbits he

/-- Neither the conversion nor the product is rounded. -/
theorem value_drawAt (key : Key) (place : ℕ) :
    Value (drawAt key place) (topBits (outputAt key place) * 2 ^ (-53 : ℤ)) := by
  let bits := topBits (outputAt key place)
  have hbits : (outputAt key place >>> 11).toNat = bits := by
    rw [UInt64.toNat_shiftRight, Nat.shiftRight_eq_div_pow]
    rfl
  obtain ⟨u, hu, hconverted⟩ := exists_value_toFloat (outputAt key place >>> 11)
  rw [hbits] at hconverted
  have hwhole : Representable (bits : ℝ) := by
    simpa using representable_topBits (outputAt key place) (e := 0) (by decide)
  obtain rfl := hconverted.eq_of_representable hwhole
  have hunit : Value (Float.ofBits 0x3CA0000000000000) (2 ^ (-53 : ℤ)) :=
    value_two_pow (by decide) rfl
  have hfits : Fits (bits * 2 ^ (-53 : ℤ)) := by
    refine fits_of_abs_le (topBits_lt (outputAt key place)) (e := -53) (by decide) ?_
    rw [abs_of_nonneg (by positivity)]
  obtain ⟨w, hw, hproduct⟩ := hu.mul hunit hfits
  obtain rfl := hproduct.eq_of_representable
    (representable_topBits (outputAt key place) (by decide))
  exact hw

theorem isTopBits_drawAt (key : Key) (place : ℕ) :
    IsTopBits (outputAt key place) (drawAt key place) := by
  have hvalue := value_drawAt key place
  have hbits := topBits_lt (outputAt key place)
  have hone : Value (1 : Float) 1 := by simpa using value_two_pow (e := 0) (by decide) rfl
  refine ⟨hbits, hvalue, hvalue.nonneg (by positivity), hvalue.lt hone ?_⟩
  calc
    (topBits (outputAt key place) : ℝ) * 2 ^ (-53 : ℤ) < 2 ^ 53 * 2 ^ (-53 : ℤ) := by
      gcongr
      exact_mod_cast hbits
    _ = 1 := by norm_num

/-! ## Batches -/

theorem forall₂_splitLengths {α β : Type} {R : α → β → Prop} {xs : List α} {ys : List β}
    (counts : List ℕ) (h : List.Forall₂ R xs ys) :
    List.Forall₂ (List.Forall₂ R) (counts.splitLengths xs) (counts.splitLengths ys) := by
  induction counts generalizing xs ys with
  | nil => exact .nil
  | cons n counts ih =>
      rw [List.splitLengths_cons, List.splitLengths_cons]
      exact .cons (List.forall₂_take n h) (ih (List.forall₂_drop n h))

/-- The outputs of a generator in batches are the pieces of one run. -/
theorem Generator.IsAt.mapM_outputs {g : Generator} {key : Key} {place : ℕ}
    (h : g.IsAt key (2 * place)) (counts : List ℕ) :
    ((counts.mapM Generator.outputs).run g).1 =
      counts.splitLengths ((List.range' place counts.sum).map (outputAt key)) := by
  induction counts generalizing g place with
  | nil => rfl
  | cons n counts ih =>
      obtain ⟨g', houtputs, h'⟩ := h.outputs n
      have hsplit : (List.range' place (n + counts.sum)).map (outputAt key) =
          (List.range' place n).map (outputAt key) ++
            (List.range' (place + n) counts.sum).map (outputAt key) := by
        rw [← List.map_append, List.range'_append_1]
      rw [List.mapM_cons, List.sum_cons, hsplit, List.splitLengths_cons,
        List.take_left' (by simp), List.drop_left' (by simp), ← ih h']
      simp only [StateT.run, bind, StateT.bind, houtputs]
      rfl

namespace Stream

theorem take_add (s : Stream) (m n : ℕ) :
    s.take (m + n) = ((s.take m).1 ++ ((s.take m).2.take n).1, ((s.take m).2.take n).2) := by
  simp [take, List.range_add, Function.comp_def, Nat.add_assoc]

theorem length_take (s : Stream) (n : ℕ) : (s.take n).1.length = n := by
  simp [take]

theorem forall₂_isTopBits_take (s : Stream) (n : ℕ) :
    List.Forall₂ IsTopBits ((List.range' s.place n).map (outputAt s.key)) (s.take n).1 := by
  rw [take, List.range'_eq_map_range, List.map_map, List.forall₂_map_left_iff,
    List.forall₂_map_right_iff, List.forall₂_same]
  exact fun i _ => isTopBits_drawAt s.key (s.place + i)

end Stream

namespace Source

/-- A run of batches leaves the source where one batch of all their numbers does. -/
theorem run_mapM_draw (source : Source) (counts : List ℕ) :
    (counts.mapM draw).run source =
      (.ok (counts.splitLengths (source.stream.take counts.sum).1),
        { source with stream := (source.stream.take counts.sum).2 }) := by
  induction counts generalizing source with
  | nil => rfl
  | cons n counts ih =>
      let after : Source := { source with stream := (source.stream.take n).2 }
      have hfirst : (draw n).run source = (.ok (source.stream.take n).1, after) := rfl
      have hlength := source.stream.length_take n
      rw [List.mapM_cons, Drawing.run_bind_of_ok hfirst, Drawing.run_bind_of_ok (ih after),
        List.sum_cons, Stream.take_add, List.splitLengths_cons, List.take_left' hlength,
        List.drop_left' hlength]
      rfl

/-- The numbers of a seed do not depend on the batches that they are asked for in. They are the top
bits of what the generator of the seed puts out in the same batches. -/
theorem draw_batches (entropy seed : UInt64) :
    ∃ source, ofName entropy "seeded" seed = .ok source ∧ ∀ counts : List ℕ,
      ∃ batches after,
        (counts.mapM draw).run source = (.ok batches, after) ∧
        (draw counts.sum).run source = (.ok batches.flatten, after) ∧
        batches.map List.length = counts ∧
        List.Forall₂ (List.Forall₂ IsTopBits)
          ((counts.mapM Generator.outputs).run (Generator.ofSeed seed)).1 batches := by
  let source : Source := ⟨.seeded, Stream.ofSeed seed⟩
  refine ⟨source, rfl, fun counts => ⟨_, _, run_mapM_draw source counts, ?_, ?_, ?_⟩⟩
  · have hlength := source.stream.length_take counts.sum
    rw [List.flatten_splitLengths _ _ hlength.le]
    rfl
  · exact List.map_splitLengths_length _ _ (source.stream.length_take counts.sum).ge
  · have hstart : (Generator.ofSeed seed).IsAt (keyOfSeed seed) (2 * 0) :=
      Generator.isAt_ofSeed seed
    rw [hstart.mapM_outputs counts]
    exact forall₂_splitLengths counts (source.stream.forall₂_isTopBits_take counts.sum)

end Source

end DefiniteIntegral
