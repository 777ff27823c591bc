import LeastSquares.Random.Normal

/-! # Random words

An endless sequence of 64-bit words for each seed. The seed is stretched to a key of eight words by
a linear congruence whose states are scrambled, and the key drives a stream cipher with twelve
rounds, of which each block of sixteen 32-bit words is a function of the key and its own number.
-/

namespace LeastSquares.Random

def stretch (s : UInt64) : UInt64 := s * 6364136223846793005 + 11634580027462260723

def rotateLeft (x : UInt32) (k : UInt32) : UInt32 := (x <<< k) ||| (x >>> (32 - k))

def rotateRight (x : UInt32) (k : UInt32) : UInt32 := (x >>> k) ||| (x <<< (32 - k))

/-- The word that a state of the congruence is scrambled to. -/
def scramble (s : UInt64) : UInt32 :=
  rotateRight (((s >>> 18) ^^^ s) >>> 27).toUInt32 (s >>> 59).toUInt32

abbrev Key := Vector UInt32 8

def keyOf (seed : UInt64) : Key :=
  (drawn (fun s => (scramble (stretch s), stretch s)) 8 seed).1

/-- A block of the cipher, row by row. -/
abbrev Block := Vector UInt32 16

namespace Block

/-- The block that the rounds start from: four constants, the key, and the number of the block in
64 bits, the rest being zero. -/
def initial (key : Key) (number : UInt64) : Block :=
  (#v[0x61707865, 0x3320646E, 0x79622D32, 0x6B206574] : Vector UInt32 4) ++ key ++
    (#v[number.toUInt32, (number >>> 32).toUInt32, 0, 0] : Vector UInt32 4)

/-- Mixes four words of a block. -/
def quarter (a b c d : Fin 16) (s : Block) : Block :=
  let s := s.set a (s[a] + s[b])
  let s := s.set d (rotateLeft (s[d] ^^^ s[a]) 16)
  let s := s.set c (s[c] + s[d])
  let s := s.set b (rotateLeft (s[b] ^^^ s[c]) 12)
  let s := s.set a (s[a] + s[b])
  let s := s.set d (rotateLeft (s[d] ^^^ s[a]) 8)
  let s := s.set c (s[c] + s[d])
  s.set b (rotateLeft (s[b] ^^^ s[c]) 7)

/-- Mixes the columns of a block and then its diagonals. -/
def doubleRound (s : Block) : Block :=
  let s := quarter 0 4 8 12 s
  let s := quarter 1 5 9 13 s
  let s := quarter 2 6 10 14 s
  let s := quarter 3 7 11 15 s
  let s := quarter 0 5 10 15 s
  let s := quarter 1 6 11 12 s
  let s := quarter 2 7 8 13 s
  quarter 3 4 9 14 s

def ofKey (key : Key) (number : UInt64) : Block :=
  let s := initial key number
  Vector.zipWith (· + ·) (Nat.repeat doubleRound 6 s) s

end Block

/-- The 64-bit word at a position: two words of a block, the low half first. -/
def word (key : Key) (position : Nat) : UInt64 :=
  let block := Block.ofKey key (position / 8).toUInt64
  let low := Fin.ofNat 16 (2 * (position % 8))
  block[low].toUInt64 ||| (block[low + 1].toUInt64 <<< 32)

end LeastSquares.Random
