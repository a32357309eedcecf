import IncrementalGame.Toml.Scalar

/-!
# TOML documents

A document is read line by line: an entry `key = value` adds to the table of the last header, a
header chooses the table that the following entries add to, and blank lines and comments add
nothing.  `Toml.read` gives the whole document as one table, or nothing if a line is not of these
kinds or may not add what it says.

Lists and inline tables may be nested, and keys dotted, to fewer than `nesting` levels.
-/

namespace IncrementalGame.Toml

/-- The number of levels that lists, inline tables and dotted keys stay below. -/
def nesting : Nat := 80

/-! ## Keys -/

/-- Whether a key may hold a character without quotes. -/
def isBare (c : Char) : Bool :=
  isDigit c || decide ('a' ≤ c ∧ c ≤ 'z') || decide ('A' ≤ c ∧ c ≤ 'Z') || c == '_' || c == '-'

/-- One part of a key. -/
def keyPart? (fuel : Nat) (s : List Char) : Option (String × List Char) :=
  match s.takeWhile isBare with
  | [] => shortText? fuel s
  | word => some (String.ofList word, s.dropWhile isBare)

/-- The parts of a key, between points; there are at most so many. -/
def keyParts (fuel : Nat) : Nat → Reader (List String)
  | 0, _ => none
  | count + 1, s =>
    match keyPart? fuel (skipGap s) with
    | none => none
    | some (part, rest) =>
      match skipGap rest with
      | '.' :: rest => (keyParts fuel count rest).map fun (parts, rest) => (part :: parts, rest)
      | rest => some ([part], rest)

/-- A key. -/
def key? (fuel : Nat) : Reader (List String) := keyParts fuel (nesting - 1)

/-! ## Values -/

/-- Drops the comment in front, if there is one. -/
def skipComment : List Char → List Char
  | '#' :: rest => rest.dropWhile isPlain
  | s => s

/-- Drops spaces, line ends and comments, where the front may lie within a comment. -/
def skipFrom : (inComment : Bool) → List Char → List Char
  | _, [] => []
  | _, '\n' :: rest => skipFrom false rest
  | _, '\r' :: '\n' :: rest => skipFrom false rest
  | true, c :: rest => if isPlain c then skipFrom true rest else c :: rest
  | false, c :: rest =>
    if isGap c then skipFrom false rest
    else if c = '#' then skipFrom true rest
    else c :: rest

/-- Drops spaces, line ends and comments. -/
def skipAll (s : List Char) : List Char := skipFrom false s

/-- The items of a list up to its end. -/
def listItems (item : Reader Toml) : Nat → Reader (List Toml)
  | 0, _ => none
  | fuel + 1, s =>
    match skipAll s with
    | ']' :: rest => some ([], rest)
    | s =>
      match item s with
      | none => none
      | some (value, rest) =>
        match skipAll rest with
        | ']' :: rest => some ([value], rest)
        | ',' :: rest =>
          (listItems item fuel rest).map fun (values, rest) => (value :: values, rest)
        | _ => none

/-- The entry of a key and its value. -/
def entry? (fuel : Nat) (item : Reader Toml) (s : List Char) :
    Option ((List String × Toml) × List Char) := do
  let (path, s) ← key? fuel s
  let s ← character '=' (skipGap s)
  let (value, s) ← item (skipGap s)
  return ((path, value), s)

/-- The entries of an inline table up to its end; there is at least one. -/
def inlineEntries (item : Reader Toml) : Nat → Reader (List (List String × Toml))
  | 0, _ => none
  | fuel + 1, s =>
    match entry? (fuel + 1) item s with
    | none => none
    | some (e, rest) =>
      match skipGap rest with
      | '\x7d' :: rest => some ([e], rest)
      | ',' :: rest => (inlineEntries item fuel rest).map fun (es, rest) => (e :: es, rest)
      | _ => none

/-- The inline table of some entries. -/
def inlineTable (entries : List (List String × Toml)) : Option Toml :=
  entries.foldl (fun t e => t.bind (addEntry e.1 e.2)) (some (.table .inline []))

/-- A value, which is nested to fewer levels than the second number says. -/
def value (fuel : Nat) : Nat → Reader Toml
  | 0, _ => none
  | depth + 1, s =>
    match s with
    | '[' :: rest =>
      if depth = 0 then none
      else
        (listItems (value fuel depth) fuel rest).map fun (items, rest) => (.list items, rest)
    | '\x7b' :: rest =>
      if depth = 0 then none
      else match skipGap rest with
      | '\x7d' :: rest => some (.table .inline [], rest)
      | rest =>
        match inlineEntries (value fuel depth) fuel rest with
        | none => none
        | some (entries, rest) => (inlineTable entries).map fun t => (t, rest)
    | 't' :: 'r' :: 'u' :: 'e' :: rest => some (.boolean true, rest)
    | 'f' :: 'a' :: 'l' :: 's' :: 'e' :: rest => some (.boolean false, rest)
    | '"' :: _ | '\'' :: _ => (text? fuel s).map fun (s, rest) => (.text s, rest)
    | s =>
      match moment? s with
      | some result => some result
      | none => number? s

/-! ## Lines -/

/-- A document as far as it has been read: the table so far, and the path of the table that entries
add to. -/
structure Progress where
  /-- The whole document. -/
  root : Toml
  /-- The path of the last header. -/
  current : List String
  deriving Inhabited

/-- Adds the entry of a line to the table of the last header. -/
def Progress.enter (p : Progress) (path : List String) (value : Toml) : Option Progress :=
  (descend false (addEntry path value) p.current p.root).map fun root => { p with root := root }

/-- What a line adds. -/
def line? (fuel : Nat) (p : Progress) (s : List Char) : Option (Progress × List Char) :=
  match s with
  | '[' :: '[' :: rest => do
    let (path, s) ← key? fuel rest
    let s ← character ']' s
    let s ← character ']' s
    let root ← addListed path p.root
    return (⟨root, path⟩, s)
  | '[' :: rest => do
    let (path, s) ← key? fuel rest
    let s ← character ']' s
    let root ← addTable path p.root
    return (⟨root, path⟩, s)
  | s => do
    let ((path, v), s) ← entry? fuel (value fuel nesting) s
    let p ← p.enter path v
    return (p, s)

/-- What all lines add. -/
def lines : Nat → Progress → List Char → Option Progress
  | 0, _, _ => none
  | fuel + 1, p, s =>
    match skipAll s with
    | [] => some p
    | s =>
      match line? (fuel + 1) p s with
      | none => none
      | some (p, rest) =>
        let rest := skipComment (skipGap rest)
        match rest, lineEnd? rest with
        | [], _ => some p
        | _, some rest => lines fuel p rest
        | _, none => none

/-- Reads a document. -/
def read (source : String) : Option Toml :=
  let s := source.toList
  let s := match s with
    | '\ufeff' :: rest => rest
    | s => s
  (lines (s.length + 1) ⟨.table .stated [], []⟩ s).map (·.root)

end IncrementalGame.Toml
