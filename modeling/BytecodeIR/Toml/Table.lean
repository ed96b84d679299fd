/-!
The values of a TOML document, and the tables that it builds up.

A document fills its tables bit by bit: a header opens a table, a dotted key opens the tables that
it passes through, and no table may be opened in two of these ways or twice by a header.  The
entries of a table stand in the order in which they first appeared.
-/

namespace BytecodeIR.Toml

/-- How a table came to be. -/
inductive Origin where
  /-- It has a header of its own, or it is the document. -/
  | header
  /-- A dotted key passes through it. -/
  | dotted
  /-- Headers of tables inside it were met, and none of its own. -/
  | implied
  /-- It is written between braces, and nothing can be added to it. -/
  | inline
deriving DecidableEq

/-- A value, or a table. -/
inductive Item where
  | string (s : String)
  | integer (i : Int)
  | boolean (b : Bool)
  /-- A number with a point or exponent, or a date, as it is spelled. -/
  | other (spelling : String)
  | array (items : List Item)
  | table (origin : Origin) (entries : List (String × Item))
  /-- Tables under one name, the latest last. -/
  | tables (elements : List (List (String × Item)))
deriving Inhabited

/-- The entries of a table. -/
abbrev Entries := List (String × Item)

/-- A kind of step into a table. -/
inductive Step where
  /-- A part of a dotted key. -/
  | dotted
  /-- A part of a header. -/
  | header
deriving DecidableEq

/-- Puts an item in the place of the entry with its name, or at the end. -/
def Entries.set (entries : Entries) (name : String) (item : Item) : Entries :=
  if (entries.lookup name).isSome then
    entries.map fun e => if e.1 = name then (name, item) else e
  else entries ++ [(name, item)]

/-- Changes the table at the end of a path, opening the tables on the way.  The change is given
the origin of the table if the path leads anywhere. -/
def Entries.change (step : Step) (f : Option Origin → Entries → Option Entries) :
    Option Origin → List String → Entries → Option Entries
  | origin, [], entries => f origin entries
  | _, name :: path, entries =>
    match entries.lookup name with
    | none => do
      let origin : Origin := if step = .dotted then .dotted else .implied
      let inner ← Entries.change step f (some origin) path []
      pure (entries ++ [(name, .table origin inner)])
    | some (.table origin inner) => do
      if origin = .inline ∨ (step = .dotted ∧ origin = .header) then none
      let inner ← Entries.change step f (some origin) path inner
      pure (Entries.set entries name (.table origin inner))
    | some (.tables elements) =>
      match elements.reverse with
      | [] => none
      | last :: earlier => do
        let last ← Entries.change step f (some .header) path last
        pure (Entries.set entries name (.tables (last :: earlier).reverse))
    | some _ => none

/-- Adds a value under a dotted key. -/
def Entries.insert (entries : Entries) (path : List String) (name : String) (item : Item) :
    Option Entries :=
  Entries.change .dotted (fun origin inner =>
    if origin.any fun o => o ≠ .dotted then none
    else if (inner.lookup name).isSome then none
    else some (inner ++ [(name, item)])) none path entries

/-- Adds a table that has a header of its own. -/
def Entries.insertTable (entries : Entries) (path : List String) (name : String)
    (filling : Entries → Option Entries) : Option Entries :=
  Entries.change .header (fun _ inner =>
    match inner.lookup name with
    | none => (filling []).map fun filled => inner ++ [(name, .table .header filled)]
    | some (.table .implied started) =>
      (filling started).map fun filled => Entries.set inner name (.table .header filled)
    | some _ => none) none path entries

/-- Adds another table under a name. -/
def Entries.appendTable (entries : Entries) (path : List String) (name : String)
    (filling : Entries → Option Entries) : Option Entries :=
  Entries.change .header (fun _ inner => do
    let filled ← filling []
    match inner.lookup name with
    | none => some (inner ++ [(name, .tables [filled])])
    | some (.tables elements) => some (Entries.set inner name (.tables (elements ++ [filled])))
    | some _ => none) none path entries

end BytecodeIR.Toml
