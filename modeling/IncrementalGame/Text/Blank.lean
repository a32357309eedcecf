/-!
# Blanks

A blank is a character with the property `White_Space`.  Formulas, command lines and catalog
shorthands are trimmed of blanks and split at them; only the blanks between the words of a formula
are a narrower set, which belongs to the formula's own token rules.
-/

namespace IncrementalGame.Text

/-- Whether a character has the property `White_Space`. -/
def isBlank (c : Char) : Bool :=
  let n := c.toNat
  decide (9 ≤ n ∧ n ≤ 13) || n == 0x20 || n == 0x85 || n == 0xa0 || n == 0x1680 ||
    decide (0x2000 ≤ n ∧ n ≤ 0x200a) || n == 0x2028 || n == 0x2029 || n == 0x202f ||
    n == 0x205f || n == 0x3000

/-- Drops the blanks in front. -/
def trimStart (s : List Char) : List Char := s.dropWhile isBlank

/-- Drops the blanks behind. -/
def trimEnd (s : List Char) : List Char := (s.reverse.dropWhile isBlank).reverse

/-- Drops the blanks on both sides. -/
def trim (s : List Char) : List Char := trimEnd (trimStart s)

/-- The words of a text: its longest runs without a blank. -/
def words (s : List Char) : List (List Char) :=
  (s.splitBy (fun a b => isBlank a == isBlank b)).filter (fun w => !w.any isBlank)

/-- The parts of a text between the occurrences of one character. -/
def splitAt (separator : Char) : List Char → List (List Char)
  | [] => [[]]
  | c :: rest =>
    if c = separator then [] :: splitAt separator rest
    else
      match splitAt separator rest with
      | [] => [[c]]
      | part :: parts => (c :: part) :: parts

/-- The number of bytes that a text takes in UTF-8. -/
def byteLength : List Char → Nat
  | [] => 0
  | c :: s => c.utf8Size + byteLength s

/-- Whether a text starts with another one, and what follows it then. -/
def stripStart (start : List Char) (s : List Char) : Option (List Char) :=
  if start.isPrefixOf s then some (s.drop start.length) else none

end IncrementalGame.Text
