import BytecodeIR.SortedMap
/-!
Paths of files.

A path is a text, and its spelling is kept; but two paths count as equal when their components are,
and paths are ordered component by component.  Slashes in a row count as one, a slash at the end
does not count, and neither does a dot between two slashes.

File names are texts.  A name of bytes that are not UTF-8 is no path here, neither one that is given
nor one that a directory lists, so nothing is said of what a replacement character would stand for.
-/

namespace BytecodeIR

/-- A path as it is spelled. -/
structure Path where
  text : String
deriving DecidableEq, Inhabited

/-- A component of a path. -/
inductive Component where
  /-- The root, at the start of an absolute path. -/
  | root
  /-- The dot at the start of a relative path. -/
  | current
  /-- Two dots: the directory above. -/
  | parent
  | name (s : String)
deriving DecidableEq

namespace Component

/-- What components are ordered by: the special ones come first, names by their characters. -/
def key : Component → Nat × String
  | root => (0, "")
  | current => (1, "")
  | parent => (2, "")
  | name s => (3, s)

instance : Ord Component := ⟨@compareOn _ _ lexOrd key⟩

instance : Std.TransOrd Component := inferInstanceAs (Std.TransCmp (@compareOn _ _ lexOrd key))

end Component

namespace Path

/-- The pieces of a list of characters between slashes, empty ones included. -/
def splitSlashes : List Char → List (List Char)
  | [] => [[]]
  | c :: rest =>
    if c = '/' then [] :: splitSlashes rest
    else
      match splitSlashes rest with
      | [] => [[c]]
      | piece :: pieces => (c :: piece) :: pieces

/-- The pieces of a path between slashes, empty ones left out. -/
def pieces (p : Path) : List String :=
  ((splitSlashes p.text.toList).filter fun piece => !piece.isEmpty).map String.ofList

/-- Whether a path starts at the root. -/
def isAbsolute (p : Path) : Bool := p.text.toList.head? == some '/'

/-- Whether a path ends in a slash and so can only be a directory. -/
def endsInSlash (p : Path) : Bool := p.text.toList.getLast? == some '/'

/-- The component of a piece, if it counts where it is not the first. -/
def component? (piece : String) : Option Component :=
  if piece = "." then none
  else if piece = ".." then some .parent
  else some (.name piece)

/-- The components of a path. -/
def components (p : Path) : List Component :=
  let start :=
    if p.isAbsolute then [.root]
    else if p.pieces.head? = some "." then [.current]
    else []
  start ++ p.pieces.filterMap component?

/-- The path of an entry of the directory that a path leads to. -/
def entry (p : Path) (name : String) : Path :=
  ⟨if p.text.isEmpty ∨ p.endsInSlash then p.text ++ name else p.text ++ "/" ++ name⟩

/-- The extension of a file name: what follows its last dot, unless the name starts with it. -/
def extension? (name : String) : Option String :=
  let reversed := name.toList.reverse
  match reversed.dropWhile (· ≠ '.') with
  | [] => none
  | [_] => none
  | _ => some (String.ofList (reversed.takeWhile (· ≠ '.')).reverse)

end Path

end BytecodeIR
