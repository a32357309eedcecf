/-!
# A seeded stream of words

Chance in formulas comes from the ChaCha stream with eight rounds.  A seed is spread over the 256
bits of the key, and the words of the stream are those of its successive blocks.

A generator is nothing but a key and the number of words it has given (`Generator`), so a draw only
moves it forward, and two generators that have drawn equally often under one key are equal.

The four rows of a block are mixed as wholes: a column round works on the rows as they stand, and a
diagonal round is a column round between two turns of the rows.
-/

namespace IncrementalGame.Random

/-- Four words side by side. -/
structure Row where
  a : UInt32
  b : UInt32
  c : UInt32
  d : UInt32
  deriving DecidableEq, Inhabited

namespace Row

/-- Sums of the words. -/
def add (r s : Row) : Row := ⟨r.a + s.a, r.b + s.b, r.c + s.c, r.d + s.d⟩

/-- Exclusive sums of the words. -/
def xor (r s : Row) : Row := ⟨r.a ^^^ s.a, r.b ^^^ s.b, r.c ^^^ s.c, r.d ^^^ s.d⟩

/-- One word with its bits turned to the left. -/
def rotateWord (w : UInt32) (n : UInt32) : UInt32 := (w <<< n) ||| (w >>> (32 - n))

/-- Each word with its bits turned to the left. -/
def rotateBits (r : Row) (n : UInt32) : Row :=
  ⟨rotateWord r.a n, rotateWord r.b n, rotateWord r.c n, rotateWord r.d n⟩

/-- The words moved one place to the front. -/
def turn (r : Row) : Row := ⟨r.b, r.c, r.d, r.a⟩

end Row

/-- Sixteen words in four rows. -/
structure Block where
  a : Row
  b : Row
  c : Row
  d : Row
  deriving DecidableEq, Inhabited

namespace Block

/-- Mixes the four columns. -/
def columnRound (s : Block) : Block :=
  let a := s.a.add s.b
  let d := (s.d.xor a).rotateBits 16
  let c := s.c.add d
  let b := (s.b.xor c).rotateBits 12
  let a := a.add b
  let d := (d.xor a).rotateBits 8
  let c := c.add d
  let b := (b.xor c).rotateBits 7
  ⟨a, b, c, d⟩

/-- Mixes the four columns, then the four diagonals. -/
def doubleRound (s : Block) : Block :=
  let s := s.columnRound
  let s := columnRound ⟨s.a, s.b.turn, s.c.turn.turn, s.d.turn.turn.turn⟩
  ⟨s.a, s.b.turn.turn.turn, s.c.turn.turn, s.d.turn⟩

/-- The sum of two blocks, word by word. -/
def add (s t : Block) : Block := ⟨s.a.add t.a, s.b.add t.b, s.c.add t.c, s.d.add t.d⟩

/-- Eight rounds and the sum with the block they started from. -/
def output (s : Block) : Block := s.doubleRound.doubleRound.doubleRound.doubleRound.add s

end Block

/-- Two words as one, the first of them the lower half. -/
def paired (low high : UInt32) : UInt64 := low.toUInt64 ||| (high.toUInt64 <<< 32)

/-- The word pair at one of the eight places of a block. -/
def Block.pair (s : Block) (place : Nat) : UInt64 :=
  let row := match place / 2 with
    | 0 => s.a
    | 1 => s.b
    | 2 => s.c
    | _ => s.d
  if place % 2 = 0 then paired row.a row.b else paired row.c row.d

/-- A generator: its key, and how many 64-bit words it has given. -/
structure Generator where
  /-- The first half of the key. -/
  keyLow : Row
  /-- The second half of the key. -/
  keyHigh : Row
  /-- The number of words given so far. -/
  drawn : Nat
  deriving DecidableEq, Inhabited

namespace Generator

/-- The constant row in front of every block. -/
def constantRow : Row := ⟨0x61707865, 0x3320646e, 0x79622d32, 0x6b206574⟩

/-- The block of a number. -/
def block (g : Generator) (n : Nat) : Block :=
  Block.output ⟨constantRow, g.keyLow, g.keyHigh,
    ⟨UInt32.ofNat n, UInt32.ofNat (n / UInt32.size), 0, 0⟩⟩

/-- The next word of the stream. -/
def next (g : Generator) : UInt64 × Generator :=
  ((g.block (g.drawn / 8)).pair (g.drawn % 8), { g with drawn := g.drawn + 1 })

/-- One step of the sequence that spreads a seed. -/
def seedStep (state : UInt64) : UInt64 := state * 6364136223846793005 + 11634580027462260723

/-- The key word of a state of that sequence. -/
def seedWord (state : UInt64) : UInt32 :=
  let mixed := (((state >>> 18) ^^^ state) >>> 27).toUInt32
  let turn := (state >>> 59).toUInt32
  if turn = 0 then mixed else (mixed >>> turn) ||| (mixed <<< (32 - turn))

/-- Four successive key words, and the state behind them. -/
def seedRow (state : UInt64) : Row × UInt64 :=
  let s1 := seedStep state
  let s2 := seedStep s1
  let s3 := seedStep s2
  let s4 := seedStep s3
  (⟨seedWord s1, seedWord s2, seedWord s3, seedWord s4⟩, s4)

/-- The generator of a seed. -/
def ofSeed (seed : UInt64) : Generator :=
  let (low, state) := seedRow seed
  let (high, _) := seedRow state
  ⟨low, high, 0⟩

end Generator

end IncrementalGame.Random
