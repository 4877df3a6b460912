/-! The stream of random numbers of a seed: the seed is spread over a key by a permuted congruential
generator, the key drives a stream cipher of twelve rounds, and each number takes the next 64 bits
of its output. A number has a place in the stream of its own, so how the stream is cut into batches
makes no difference. -/

namespace DefiniteIntegral

/-- A key of eight words. -/
abbrev Key := Vector UInt32 8

/-- The state of the cipher: four constant words, the key, the block number and the stream. -/
abbrev Block := Vector UInt32 16

/-- A word turned left. -/
def rotateLeft (w : UInt32) (n : UInt32) : UInt32 :=
  (w <<< n) ||| (w >>> (32 - n))

/-- A word turned right; a turn by zero leaves it. -/
def rotateRight (w : UInt32) (n : UInt32) : UInt32 :=
  (w >>> n) ||| (w <<< ((32 - n) % 32))

/-! ## From a seed to a key -/

/-- The next state of the congruential generator. -/
def congruentialStep (state : UInt64) : UInt64 :=
  state * 6364136223846793005 + 11634580027462260723

/-- The word that a state gives: some of its bits, turned by its top five bits. -/
def congruentialOutput (state : UInt64) : UInt32 :=
  rotateRight (((state >>> 18) ^^^ state) >>> 27).toUInt32 (state >>> 59).toUInt32

/-- The state after `n` steps. -/
def congruentialState (seed : UInt64) : Nat → UInt64
  | 0 => seed
  | n + 1 => congruentialStep (congruentialState seed n)

/-- The key of a seed: the outputs of the first eight states after it. -/
def keyOfSeed (seed : UInt64) : Key :=
  Vector.ofFn fun i => congruentialOutput (congruentialState seed (i.val + 1))

/-! ## The cipher -/

/-- Four words mixed with one another. -/
def quarterRound (s : Block) (a b c d : Fin 16) : Block :=
  let s := s.set a (s[a] + s[b])
  let s := s.set d (rotateLeft (s[d] ^^^ s[a]) 16)
  let s := s.set c (s[c] + s[d])
  let s := s.set b (rotateLeft (s[b] ^^^ s[c]) 12)
  let s := s.set a (s[a] + s[b])
  let s := s.set d (rotateLeft (s[d] ^^^ s[a]) 8)
  let s := s.set c (s[c] + s[d])
  s.set b (rotateLeft (s[b] ^^^ s[c]) 7)

/-- Two rounds: the columns of the square of words, then its diagonals. -/
def doubleRound (s : Block) : Block :=
  let s := quarterRound s 0 4 8 12
  let s := quarterRound s 1 5 9 13
  let s := quarterRound s 2 6 10 14
  let s := quarterRound s 3 7 11 15
  let s := quarterRound s 0 5 10 15
  let s := quarterRound s 1 6 11 12
  let s := quarterRound s 2 7 8 13
  quarterRound s 3 4 9 14

/-- The state of a key at the start of a block. -/
def initialBlock (key : Key) (number : UInt64) : Block :=
  #v[0x61707865, 0x3320646e, 0x79622d32, 0x6b206574,
    key[0], key[1], key[2], key[3], key[4], key[5], key[6], key[7],
    number.toUInt32, (number >>> 32).toUInt32, 0, 0]

/-- Six double rounds over a state. -/
def twelveRounds (s : Block) : Block :=
  doubleRound (doubleRound (doubleRound (doubleRound (doubleRound (doubleRound s)))))

/-- A block of output: the state after its rounds, added to the one before them. -/
def outputBlock (key : Key) (number : UInt64) : Block :=
  let start := initialBlock key number
  Vector.zipWith (· + ·) (twelveRounds start) start

/-! ## The numbers -/

/-- The 64-bit output at a place: two words of a block, the low one first, eight to a block. -/
def outputAt (key : Key) (place : Nat) : UInt64 :=
  let block := outputBlock key (UInt64.ofNat (place / 8))
  have low_lt : 2 * (place % 8) < 16 := by omega
  have high_lt : 2 * (place % 8) + 1 < 16 := by omega
  let low := block[2 * (place % 8)]
  let high := block[2 * (place % 8) + 1]
  low.toUInt64 ||| (high.toUInt64 <<< 32)

/-- The known answer for this key. -/
example : outputAt #v[1, 23, 456, 7890, 0, 0, 0, 0] 0 = 10719222850664546238 := by
  decide +kernel

/-- The number at a place: the top 53 bits of its output, in units of `2 ^ -53`. -/
def drawAt (key : Key) (place : Nat) : Float :=
  (outputAt key place >>> 11).toFloat * Float.ofBits 0x3CA0000000000000

/-- The known first numbers of two seeds. -/
example : drawAt (keyOfSeed 0) 0 == 0.7311134158637046 ∧
    drawAt (keyOfSeed 42) 0 == 0.5265574090027738 := by
  decide +kernel

/-- A stream of numbers: its key, and the place of the next one. -/
structure Stream where
  key : Key
  place : Nat

namespace Stream

/-- The stream of a seed, from its start. -/
def ofSeed (seed : UInt64) : Stream :=
  ⟨keyOfSeed seed, 0⟩

/-- The next `n` numbers, and the stream after them. -/
def take (n : Nat) (s : Stream) : List Float × Stream :=
  ((List.range n).map fun i => drawAt s.key (s.place + i), { s with place := s.place + n })

end Stream

end DefiniteIntegral
