import BytecodeIR.Files.Path
import BytecodeIR.Text.Encoding
/-!
Files as a value.

A tree holds what can be reached from a working directory, and reading or writing a file is a
function of it.  Nothing is known to stand outside the working directory except the directories
above it, up to the root.  A failing write leaves the tree as it was.
-/

namespace BytecodeIR

/-- What stands at a place in a tree. -/
inductive Entry where
  | file (content : List UInt8)
  | directory
deriving DecidableEq

/-- Why a file cannot be read or written. -/
inductive FileError where
  | notFound
  | notDirectory
  | isDirectory
  /-- The path, or a name in it, has too many bytes. -/
  | nameTooLong
  /-- The path has a character that ends paths. -/
  | nulByte
  /-- The content is no text. -/
  | notText
deriving DecidableEq

/-- The wording of a file error. -/
def FileError.message : FileError → String
  | notFound => "No such file or directory (os error 2)"
  | notDirectory => "Not a directory (os error 20)"
  | isDirectory => "Is a directory (os error 21)"
  | nameTooLong => "File name too long (os error 36)"
  | nulByte => "file name contained an unexpected NUL byte"
  | notText => "stream did not contain valid UTF-8"

/-- A place: the names that lead to it from the working directory.  The root, or steps to the
directory above, may stand before the names, and nowhere else. -/
abbrev Place := List Component

namespace Place

/-- Whether a place is the working directory, one above it, or the root. -/
def isAbove (place : Place) : Bool :=
  place.all fun c => match c with | .name _ => false | _ => true

/-- The directory that holds a place; the root holds itself. -/
def up (place : Place) : Place :=
  match place.getLast? with
  | some .root => place
  | some (.name _) => place.dropLast
  | _ => place ++ [.parent]

/-- The place that a piece of a path leads to from a directory. -/
def step (place : Place) (piece : String) : Place :=
  if piece = "." then place
  else if piece = ".." then place.up
  else place ++ [.name piece]

end Place

namespace Path

/-- The most bytes that a name in a path has. -/
def longestName : Nat := 255

/-- The most bytes that a path has. -/
def longestPath : Nat := 4095

/-- The place at which the pieces of a path start to lead somewhere. -/
def start (p : Path) : Except FileError Place :=
  if p.text.toList.contains '\x00' then .error .nulByte
  else if p.text.isEmpty then .error .notFound
  else if longestPath < p.text.utf8ByteSize then .error .nameTooLong
  else .ok (if p.isAbsolute then [.root] else [])

end Path

/-- Files and directories by the places where they stand. -/
structure Tree where
  entries : SortedMap Place Entry
deriving DecidableEq

namespace Tree

/-- The empty working directory. -/
def empty : Tree := ⟨∅⟩

/-- What stands at a place; the working directory and those above it are directories. -/
def entry? (t : Tree) (place : Place) : Option Entry :=
  if place.isAbove then some .directory else t.entries.get? place

/-- Puts an entry at a place. -/
def insert (t : Tree) (place : Place) (e : Entry) : Tree := ⟨t.entries.insert place e⟩

/-! ### Paths -/

/-- Fails unless a directory stands at a place. -/
def enter (t : Tree) (place : Place) : Except FileError Unit :=
  match t.entry? place with
  | none => .error .notFound
  | some (.file _) => .error .notDirectory
  | some .directory => .ok ()

/-- The place that pieces of a path lead to from a place.  Every place on the way has to be a
directory. -/
def follow (t : Tree) : Place → List String → Except FileError Place
  | place, [] => .ok place
  | place, piece :: rest => do
    t.enter place
    if Path.longestName < piece.utf8ByteSize then .error .nameTooLong
    else t.follow (place.step piece) rest

/-- The place that a path leads to. -/
def place (t : Tree) (p : Path) : Except FileError Place := do
  let start ← p.start
  t.follow start p.pieces

/-- Makes the directories that pieces of a path lead through, where nothing stands yet, and finds
the place that they lead to. -/
def makeWay (t : Tree) (pieces : List String) : Tree × Place :=
  pieces.foldl (fun (t, place) piece =>
    let next := place.step piece
    (if (t.entry? next).isSome then t else t.insert next .directory, next)) (t, [])

/-- Puts an entry where a relative path leads, and makes the directories on the way. -/
def put (t : Tree) (p : Path) : Entry → Tree
  | .directory => (t.makeWay p.pieces).1
  | e =>
    let (made, above) := t.makeWay p.pieces.dropLast
    match p.pieces.getLast? with
    | none => made
    | some piece => made.insert (above.step piece) e

/-! ### Files -/

/-- The text in a file. -/
def read (t : Tree) (p : Path) : Except FileError String := do
  let place ← t.place p
  match t.entry? place with
  | none => .error .notFound
  | some .directory => .error .isDirectory
  | some (.file content) =>
    if p.endsInSlash then .error .notDirectory
    else
      match Text.decode? content with
      | some text => .ok text
      | none => .error .notText

/-- Writes a text into a file, which need not exist.  No file is made under a path with a slash at
its end, whatever its last name is. -/
def write (t : Tree) (p : Path) (text : String) : Except FileError Tree := do
  let start ← p.start
  if p.endsInSlash then
    let above ← t.follow start p.pieces.dropLast
    t.enter above
    .error .isDirectory
  else
    let place ← t.follow start p.pieces
    if t.entry? place = some .directory then .error .isDirectory
    else .ok (t.insert place (.file (Text.encode text)))

/-- The names of the entries of a directory. -/
def list (t : Tree) (p : Path) : Except FileError (List String) := do
  let place ← t.place p
  t.enter place
  .ok (t.entries.keys.filterMap fun k =>
    match k.getLast? with
    | some (.name s) => if k.dropLast = place then some s else none
    | _ => none)

end Tree

end BytecodeIR
