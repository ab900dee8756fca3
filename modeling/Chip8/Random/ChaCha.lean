import Chip8.Nibble

/-!
# ChaCha — a seeded stream of random numbers

The stream is that of the ChaCha block function with twelve rounds.  A block is computed from a key
and the block's number alone, so every number of the stream can be had by its position.  The key is
made from a 64-bit seed by a permuted congruential generator.
-/

namespace Chip8
namespace ChaCha

/-- Four rows of four words. -/
abbrev Block := Vector UInt32 16

/-- Rotate a word to the left by a distance below 32. -/
def rotateLeft (x distance : UInt32) : UInt32 :=
  (x <<< distance) ||| (x >>> (32 - distance))

/-- Rotate a word to the right by a distance below 32. -/
def rotateRight (x distance : UInt32) : UInt32 :=
  (x >>> distance) ||| (x <<< (32 - distance))

/-! ## The block function -/

/-- The word at a position, which counts modulo sixteen. -/
def word (s : Block) (i : Nat) : UInt32 := s[Nibble.ofNat i]

/-- Replace the word at a position. -/
def setWord (s : Block) (i : Nat) (x : UInt32) : Block := s.set (Nibble.ofNat i) x

/-- Add one word to another, and mix the sum into a third one. -/
def mix (s : Block) (a b d : Nat) (distance : UInt32) : Block :=
  let sum := word s a + word s b
  setWord (setWord s a sum) d (rotateLeft (word s d ^^^ sum) distance)

/-- The quarter round on four words of a block. -/
def quarterRound (s : Block) (a b c d : Nat) : Block :=
  let s := mix s a b d 16
  let s := mix s c d b 12
  let s := mix s a b d 8
  mix s c d b 7

/-- A round on the columns, then a round on the diagonals. -/
def doubleRound (s : Block) : Block :=
  let s := quarterRound s 0 4 8 12
  let s := quarterRound s 1 5 9 13
  let s := quarterRound s 2 6 10 14
  let s := quarterRound s 3 7 11 15
  let s := quarterRound s 0 5 10 15
  let s := quarterRound s 1 6 11 12
  let s := quarterRound s 2 7 8 13
  quarterRound s 3 4 9 14

/-- Apply the double round a number of times. -/
def doubleRounds : Nat → Block → Block
  | 0, s => s
  | n + 1, s => doubleRounds n (doubleRound s)

/-- The text `expand 32-byte k`, four bytes to a word. -/
def constants : Vector UInt32 4 := #v[0x61707865, 0x3320646e, 0x79622d32, 0x6b206574]

/-- What a block starts from: the constants, the key, the block's number and a zero nonce. -/
def initial (key : Vector UInt32 8) (number : Nat) : Block :=
  constants ++ key ++ #v[UInt32.ofNat number, UInt32.ofNat (number >>> 32), 0, 0]

/-- The sixteen words of a block: the start, and what twelve rounds make of it, added up. -/
def block (key : Vector UInt32 8) (number : Nat) : Block :=
  let start := initial key number
  Vector.zipWith (· + ·) (doubleRounds 6 start) start

/-! ## The key of a seed -/

/-- The next state of the generator that expands a seed. -/
def nextState (s : UInt64) : UInt64 :=
  s * 6364136223846793005 + 11634580027462260723

/-- The state from which a word of the key is made. -/
def keyState (seed : UInt64) : Nat → UInt64
  | 0 => nextState seed
  | n + 1 => nextState (keyState seed n)

/-- The word that a state gives. -/
def keyWord (s : UInt64) : UInt32 :=
  rotateRight (((s >>> 18) ^^^ s) >>> 27).toUInt32 (s >>> 59).toUInt32

/-- The key of a seed. -/
def key (seed : UInt64) : Vector UInt32 8 :=
  Vector.ofFn fun i => keyWord (keyState seed i)

/-- The words of all blocks in order. -/
def stream (seed : UInt64) : Nat → UInt32 :=
  let key := key seed
  fun position => word (block key (position / 16)) position

end ChaCha
end Chip8
