/-!
# File names

What a file is, is told by the extension of its name: what follows the last point.  A point at the
very front of a name begins a hidden file and no extension.
-/

namespace IncrementalGame.FileName

/-- The name at the end of a path, its characters in reverse order. -/
def reversedName (path : String) : List Char := path.toList.reverse.takeWhile (· != '/')

/-- The extension of the name at the end of a path. -/
def extension? (path : String) : Option String :=
  let name := reversedName path
  match name.dropWhile (· != '.') with
  | _ :: _ :: _ => some (String.ofList (name.takeWhile (· != '.')).reverse)
  | _ => none

end IncrementalGame.FileName
