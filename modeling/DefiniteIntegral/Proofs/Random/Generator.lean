import DefiniteIntegral.Random.Stream
import Mathlib

/-! # The generator behind a stream

The cipher makes words in blocks. A generator makes four blocks at a time, keeps what has not been
given out, and takes two words for an output. However its calls are cut, its outputs are those of
the stream at consecutive places. -/

namespace DefiniteIntegral

/-- A word of the cipher, counted through all blocks of a key. -/
def wordAt (key : Key) (i : ℕ) : UInt32 :=
  (outputBlock key (UInt64.ofNat (i / 16)))[i % 16]

theorem outputAt_eq (key : Key) (place : ℕ) :
    outputAt key place =
      (wordAt key (2 * place)).toUInt64 ||| ((wordAt key (2 * place + 1)).toUInt64 <<< 32) := by
  have hblock : 2 * place / 16 = place / 8 := by omega
  have hblock' : (2 * place + 1) / 16 = place / 8 := by omega
  have hlow : 2 * place % 16 = 2 * (place % 8) := by omega
  have hhigh : (2 * place + 1) % 16 = 2 * (place % 8) + 1 := by omega
  simp only [outputAt, wordAt, hblock, hblock', hlow, hhigh]

/-- A generator: its key, the number of the block that it makes next, and the words that it has made
and not given out. -/
structure Generator where
  key : Key
  number : UInt64
  unread : List UInt32

namespace Generator

/-- The generator of a seed, before its first block. -/
def ofSeed (seed : UInt64) : Generator :=
  ⟨keyOfSeed seed, 0, []⟩

/-- The words of the next four blocks. -/
def nextWords (g : Generator) : Vector UInt32 (4 * 16) :=
  (Vector.ofFn fun i : Fin 4 => outputBlock g.key (g.number + UInt64.ofNat i)).flatten

/-- The next word. Blocks are made when there is none left. -/
def word : StateM Generator UInt32 := fun g =>
  match g.unread with
  | w :: unread => (w, { g with unread })
  | [] =>
    let words := g.nextWords
    (words[0], { g with number := g.number + 4, unread := words.toList.tail })

/-- The next output: two words, the low one first. -/
def output : StateM Generator UInt64 := do
  let low ← word
  let high ← word
  return low.toUInt64 ||| (high.toUInt64 <<< 32)

/-- The next `n` outputs. -/
def outputs : ℕ → StateM Generator (List UInt64)
  | 0 => pure []
  | n + 1 => do
    let first ← output
    let others ← outputs n
    return first :: others

/-! ## What a generator has given out -/

/-- A generator has given out the words of a key up to some place. Those that it keeps are the next
ones, up to the end of the last block that it made. -/
structure IsAt (g : Generator) (key : Key) (i : ℕ) : Prop where
  key_eq : g.key = key
  unread_eq : ∃ blocks, g.number = UInt64.ofNat blocks ∧ i ≤ 16 * blocks ∧
    g.unread = (List.range' i (16 * blocks - i)).map (wordAt key)

variable {g : Generator} {key : Key} {i place : ℕ}

theorem isAt_ofSeed (seed : UInt64) : (ofSeed seed).IsAt (keyOfSeed seed) 0 :=
  ⟨rfl, 0, rfl, le_rfl, rfl⟩

theorem toList_nextWords {blocks : ℕ} (hkey : g.key = key)
    (hnumber : g.number = UInt64.ofNat blocks) :
    g.nextWords.toList = (List.range' (16 * blocks) (4 * 16)).map (wordAt key) := by
  apply List.ext_getElem
  · simp
  · intro j hj _
    have hblock : (16 * blocks + j) / 16 = blocks + j / 16 := by omega
    have hword : (16 * blocks + j) % 16 = j % 16 := by omega
    simp only [Vector.getElem_toList, nextWords, Vector.getElem_flatten, Vector.getElem_ofFn,
      List.getElem_map, List.getElem_range', wordAt, hkey, hnumber, one_mul, hblock, hword,
      UInt64.ofNat_add]

/-- A word is the one at the next place, whether it was there or had to be made. -/
theorem IsAt.word (h : g.IsAt key i) :
    ∃ g' : Generator, Generator.word g = (wordAt key i, g') ∧ g'.IsAt key (i + 1) := by
  obtain ⟨hkey, blocks, hnumber, hle, hunread⟩ := h
  rcases hle.eq_or_lt with rfl | hlt
  · -- No word is left: the next blocks are made, and the first of their words is given out.
    have hnone : g.unread = [] := by simpa using hunread
    have hwords := toList_nextWords hkey hnumber
    have hfirst : g.nextWords[0] = wordAt key (16 * blocks) := by
      rw [← Vector.getElem_toList (by simp)]
      simp [hwords]
    refine ⟨{ g with number := g.number + 4, unread := g.nextWords.toList.tail }, ?_, hkey,
      blocks + 4, ?_, by omega, ?_⟩
    · rw [Generator.word, hnone]
      simp only [hfirst]
    · rw [hnumber, UInt64.ofNat_add]
      rfl
    · have hcount : 16 * (blocks + 4) - (16 * blocks + 1) = 63 := by omega
      rw [hwords, hcount]
      rfl
  · obtain ⟨left, hleft⟩ : ∃ left, 16 * blocks - i = left + 1 := ⟨16 * blocks - i - 1, by omega⟩
    rw [hleft, List.range'_succ, List.map_cons] at hunread
    refine ⟨{ g with unread := (List.range' (i + 1) left).map (wordAt key) }, ?_, hkey, blocks,
      hnumber, hlt, ?_⟩
    · rw [Generator.word, hunread]
    · have hcount : 16 * blocks - (i + 1) = left := by omega
      rw [hcount]

theorem IsAt.output (h : g.IsAt key (2 * place)) :
    ∃ g' : Generator, Generator.output g = (outputAt key place, g') ∧
      g'.IsAt key (2 * (place + 1)) := by
  obtain ⟨g₁, hlow, h₁⟩ := h.word
  obtain ⟨g₂, hhigh, h₂⟩ := h₁.word
  refine ⟨g₂, ?_, h₂⟩
  rw [outputAt_eq]
  simp only [Generator.output, bind, StateT.bind, hlow, hhigh]
  rfl

/-- A run of outputs is that of consecutive places. -/
theorem IsAt.outputs (h : g.IsAt key (2 * place)) (n : ℕ) :
    ∃ g' : Generator, Generator.outputs n g = ((List.range' place n).map (outputAt key), g') ∧
      g'.IsAt key (2 * (place + n)) := by
  induction n generalizing g place with
  | zero => exact ⟨g, rfl, h⟩
  | succ n ih =>
      obtain ⟨g₁, hfirst, h₁⟩ := h.output
      obtain ⟨g₂, hothers, h₂⟩ := ih h₁
      refine ⟨g₂, ?_, ?_⟩
      · simp only [Generator.outputs, bind, StateT.bind, hfirst, hothers]
        rfl
      · rwa [Nat.add_right_comm, Nat.add_assoc] at h₂

end Generator

end DefiniteIntegral
