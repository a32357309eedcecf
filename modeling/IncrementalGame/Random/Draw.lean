import IncrementalGame.Binary64.Basic
import IncrementalGame.Random.Stream

/-!
# Draws

Numbers drawn from the stream: a fraction in the unit interval, a chance in percent, an integer
between two bounds that both can come up, and a real number below its upper bound.

The last two reject words that would favour some results and take the next word instead.  At least
every second word is accepted, so `maxTries` of them in a row are never rejected; should it happen,
the lower bound is the result, which keeps the draw inside its bounds.
-/

namespace IncrementalGame.Random

/-- How many words a draw may reject. -/
def maxTries : Nat := 4096

namespace Generator

/-- A multiple of `2 ^ -53` that is at least zero and less than one. -/
def unit (g : Generator) : Float × Generator :=
  let (word, g) := g.next
  ((word >>> 11).toFloat * Binary64.ofPattern false 0x3ca0000000000000, g)

/-- True with the probability of so many percent. -/
def percent (g : Generator) (p : Float) : Bool × Generator :=
  let (u, g) := g.unit
  (decide (u * 100.0 < p), g)

/-- The integer of a word in two's complement. -/
def signed (word : UInt64) : Int :=
  if word.toNat < 0x8000000000000000 then word.toNat else (word.toNat : Int) - UInt64.size

/-- Tries words until one falls into an even share of the `range` integers from `low` on. -/
def tryInteger (low : Int) (range zone : Nat) : Nat → Generator → Int × Generator
  | 0, g => (low, g)
  | tries + 1, g =>
    let (word, g) := g.next
    let product := word.toNat * range
    if product % UInt64.size ≤ zone then (low + (product / UInt64.size : Nat), g)
    else tryInteger low range zone tries g

/-- An integer between two 64-bit bounds; both can come up. -/
def integer (g : Generator) (low high : Int) : Int × Generator :=
  let range := ((high - low + 1) % UInt64.size).toNat
  if range = 0 then
    let (word, g) := g.next
    (signed word, g)
  else tryInteger low range (range <<< (63 - range.log2) - 1) maxTries g

/-- Tries words until one gives a number below `high`. -/
def tryReal (low high : Float) : Nat → Generator → Float × Generator
  | 0, g => (low, g)
  | tries + 1, g =>
    let (word, g) := g.next
    let fraction := (word >>> 12).toFloat * Binary64.epsilon
    let x := fraction * (high - low) + low
    if x < high then (x, g) else tryReal low high tries g

/-- A number between two bounds whose distance is finite; the upper one cannot come up. -/
def real (g : Generator) (low high : Float) : Float × Generator := tryReal low high maxTries g

end Generator

end IncrementalGame.Random
