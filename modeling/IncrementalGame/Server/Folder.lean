import IncrementalGame.Server.Store
import IncrementalGame.Text.FileName

/-!
# Players in files

A `Folder` is what a directory holds, and as a store it keeps each player in a file of its own,
`<id>.json`.

A text is first written to `<id>.tmp` and then moved to its place, so that a file holds either the
text before or the text after and never a part of one.  What cannot be moved stays where it was
written.  Only files with the extension `json` are listed, so those in between never are.

A file may be closed to writing, or to reading as well (`FolderEntry.locked`).  This does not keep
another file from being moved to its place, for which the directory has to be open, as it is here.
So a file may be replaced that can be neither read nor written.

An id makes a file name only if it consists of ASCII letters, digits, `-` and `_`.  A name has at
most 255 bytes.
-/

namespace IncrementalGame

/-- What a directory has under a name. -/
inductive FolderEntry where
  /-- A file with a text, which can be read and written. -/
  | file (text : String)
  /-- A file with a text, which cannot be written, and may be closed to reading too. -/
  | locked (text : String) (readable : Bool)
  /-- Anything else, such as another directory. -/
  | other
  deriving DecidableEq, Inhabited

namespace FolderEntry

/-- Whether a text can be written to it. -/
def isWritable : FolderEntry → Bool
  | file _ => true
  | locked _ _ | other => false

/-- Whether a file can be moved to its place. -/
def isReplaceable : FolderEntry → Bool
  | file _ | locked _ _ => true
  | other => false

end FolderEntry

/-- What a directory holds. -/
structure Folder where
  /-- The entry of each name. -/
  entries : KeyMap FolderEntry
  deriving DecidableEq, Inhabited

namespace Folder

/-- The directory that holds nothing. -/
def empty : Folder := ⟨.empty⟩

/-- Puts an entry under a name. -/
def put (folder : Folder) (name : String) (entry : FolderEntry) : Folder :=
  ⟨folder.entries.insert name entry⟩

/-- How many bytes a name may have. -/
def maxNameBytes : Nat := 255

/-- Whether a name is too long. -/
def isTooLong (name : String) : Bool := decide (maxNameBytes < name.utf8ByteSize)

/-- Whether a name is not too long, and nothing stands under it but what is of some kind. -/
def allows (folder : Folder) (kind : FolderEntry → Bool) (name : String) : Bool :=
  !isTooLong name && (folder.entries.get? name).all kind

/-! ## Names -/

/-- Whether a character may stand in an id that makes a file name. -/
def isIdChar (c : Char) : Bool :=
  decide (('a' ≤ c ∧ c ≤ 'z') ∨ ('A' ≤ c ∧ c ≤ 'Z') ∨ ('0' ≤ c ∧ c ≤ '9') ∨ c = '-' ∨ c = '_')

/-- Whether an id makes a file name. -/
def isValidId (id : String) : Bool := !id.isEmpty && id.toList.all isIdChar

/-- The extension of the files that hold players. -/
def playerExtension : String := "json"

/-- The file of a player. -/
def fileOf (id : String) : String := id ++ "." ++ playerExtension

/-- The file that the text of a player is first written to. -/
def draftOf (id : String) : String := id ++ ".tmp"

/-! ## As a store -/

/-- The text under a name. -/
def read (name : String) : FolderEntry → Except StoreError String
  | .file text => .ok text
  | .locked text readable => if readable then .ok text else .error (.file name)
  | .other => .error (.file name)

/-- The texts of all files that hold players. -/
def loadAll (folder : Folder) : List (Except StoreError String) :=
  (folder.entries.entries.filter fun e => FileName.extension? e.1 == some playerExtension).map
    fun e => read e.1 e.2

/-- The text of a player. -/
def load (folder : Folder) (id : String) : Except StoreError String :=
  if !isValidId id then .error (.invalidId id)
  else if isTooLong (fileOf id) then .error (.file (fileOf id))
  else
    match folder.entries.get? (fileOf id) with
    | none => .error (.notFound id)
    | some entry => read (fileOf id) entry

/-- Moves a draft to its place. -/
def moveDraft (folder : Folder) (id text : String) : Folder :=
  ⟨(folder.entries.erase (draftOf id)).insert (fileOf id) (.file text)⟩

/-- Stores the text of a player: writes a draft and moves it to its place. -/
def save (folder : Folder) (id text : String) : Except StoreError Unit × Folder :=
  if !isValidId id then (.error (.invalidId id), folder)
  else if !folder.allows FolderEntry.isWritable (draftOf id) then
    (.error (.file (draftOf id)), folder)
  else
    let written := folder.put (draftOf id) (.file text)
    if !written.allows FolderEntry.isReplaceable (fileOf id) then (.error (.file (fileOf id)), written)
    else (.ok (), written.moveDraft id text)

instance : PlayerStore Folder where
  loadAll folder := .ok folder.loadAll
  load := load
  save := save

end Folder

end IncrementalGame
