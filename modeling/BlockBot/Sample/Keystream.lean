/-!
# A stream of random words

Random words from a seed. The seed is expanded into eight key words by a linear congruential
generator, and the words are those of the ChaCha cipher with twelve rounds under that key, block
after block, counting from zero. The word at any position is a function of the key and the position
alone.
-/

namespace BlockBot.Sample

/-- The sixteen words of a block. -/
abbrev Block16 := Vector UInt32 16

/-- A word with its bits moved around to the left. -/
def rotateLeft (x : UInt32) (n : UInt32) : UInt32 :=
  (x <<< n) ||| (x >>> (32 - n))

/-- Mixes four words of a block. -/
def quarterRound (v : Block16) (a b c d : Fin 16) : Block16 :=
  let v := v.set a (v.get a + v.get b)
  let v := v.set d (rotateLeft (v.get d ^^^ v.get a) 16)
  let v := v.set c (v.get c + v.get d)
  let v := v.set b (rotateLeft (v.get b ^^^ v.get c) 12)
  let v := v.set a (v.get a + v.get b)
  let v := v.set d (rotateLeft (v.get d ^^^ v.get a) 8)
  let v := v.set c (v.get c + v.get d)
  v.set b (rotateLeft (v.get b ^^^ v.get c) 7)

/-- Mixes the columns and then the diagonals of a block. -/
def doubleRound (v : Block16) : Block16 :=
  let v := quarterRound v 0 4 8 12
  let v := quarterRound v 1 5 9 13
  let v := quarterRound v 2 6 10 14
  let v := quarterRound v 3 7 11 15
  let v := quarterRound v 0 5 10 15
  let v := quarterRound v 1 6 11 12
  let v := quarterRound v 2 7 8 13
  quarterRound v 3 4 9 14

/-- Mixes a block a number of times. -/
def doubleRounds : Nat → Block16 → Block16
  | 0, v => v
  | n + 1, v => doubleRounds n (doubleRound v)

/-- The key words of a stream. -/
abbrev Key := Vector UInt32 8

/-- The block at a position: constants, key, position and two zeros, mixed and added to
themselves. -/
def block (key : Key) (counter : UInt64) : Block16 :=
  let start : Block16 := #v[0x61707865, 0x3320646e, 0x79622d32, 0x6b206574,
    key.get 0, key.get 1, key.get 2, key.get 3, key.get 4, key.get 5, key.get 6, key.get 7,
    counter.toUInt32, (counter >>> 32).toUInt32, 0, 0]
  Vector.zipWith (· + ·) (doubleRounds 6 start) start

/-- The word at a position of the stream. -/
def keystream (key : Key) (position : Nat) : UInt32 :=
  (block key (UInt64.ofNat (position / 16))).get (Fin.ofNat 16 position)

/-- One step of the generator that expands a seed. -/
def stepSeed (state : UInt64) : UInt64 :=
  state * 6364136223846793005 + 11634580027462260723

/-- The key word for a state of that generator. -/
def seedWord (state : UInt64) : UInt32 :=
  let x := (((state >>> 18) ^^^ state) >>> 27).toUInt32
  let r := (state >>> 59).toUInt32
  (x >>> r) ||| (x <<< ((32 - r) &&& 31))

/-- The next `n` key words. -/
def seedWords (state : UInt64) : (n : Nat) → Vector UInt32 n
  | 0 => #v[]
  | n + 1 =>
    let state := stepSeed state
    (#v[seedWord state] ++ seedWords state n).cast (Nat.add_comm 1 n)

/-- The key for a seed. -/
def Key.ofSeed (seed : UInt64) : Key :=
  seedWords seed 8

end BlockBot.Sample
