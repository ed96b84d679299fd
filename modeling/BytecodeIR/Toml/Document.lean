import BytecodeIR.Toml.Number
import BytecodeIR.Toml.Text
/-!
Reading TOML documents.

A document is a list of lines: values under keys, and headers that say which table the values after
them belong to.  A document that violates the grammar, or opens a table or sets a key twice, has no
entries at all.
-/

namespace BytecodeIR.Toml

/-- The most brackets that may be open at once, and the most parts that a key may have. -/
def nestingLimit : Nat := 79

/-! ### Keys -/

/-- The parts of a key but the last, and the last. -/
def splitLast : List String → Option (List String × String)
  | [] => none
  | [name] => some ([], name)
  | part :: rest => (splitLast rest).map fun (path, name) => (part :: path, name)

/-- Reads a key: the tables that it leads through, and the name in the last of them. -/
def place? (fuel : Nat) (cs : List Char) : Option ((List String × String) × List Char) := do
  let (parts, rest) ← key? fuel cs
  if nestingLimit < parts.length then none
  let place ← splitLast parts
  pure (place, rest)

/-! ### Values -/

/-- A text without the blanks, comments and line ends at its start. -/
def skipFiller : Nat → List Char → List Char
  | 0, cs => cs
  | fuel + 1, cs =>
    match skipBlanks cs with
    | '#' :: rest =>
      match afterNewline? (rest.dropWhile isPlain) with
      | some rest => skipFiller fuel rest
      | none => '#' :: rest
    | rest =>
      match afterNewline? rest with
      | some rest => skipFiller fuel rest
      | none => rest

mutual

/-- Reads a value, `room` more brackets being allowed. -/
def value? : Nat → Nat → List Char → Option (Item × List Char)
  | 0, _, _ => none
  | fuel + 1, room, cs =>
    match cs with
    | '[' :: rest => do
      if room = 0 then none
      let (items, rest) ← items? fuel (room - 1) (skipFiller fuel rest)
      pure (.array items, rest)
    | '\x7b' :: rest =>
      if room = 0 then none
      else
        match skipBlanks rest with
        | '\x7d' :: after => some (.table .inline [], after)
        | body => do
          let (entries, rest) ← members? fuel (room - 1) [] body
          pure (.table .inline entries, rest)
    | '"' :: _ => (string? cs).map fun (s, rest) => (.string s, rest)
    | '\'' :: _ => (string? cs).map fun (s, rest) => (.string s, rest)
    | cs => scalar? cs

/-- Reads the items of an array and its closing bracket. -/
def items? : Nat → Nat → List Char → Option (List Item × List Char)
  | 0, _, _ => none
  | fuel + 1, room, cs =>
    match cs with
    | ']' :: rest => some ([], rest)
    | cs => do
      let (item, rest) ← value? fuel room cs
      match skipFiller fuel rest with
      | ']' :: rest => pure ([item], rest)
      | ',' :: rest => do
        let (items, rest) ← items? fuel room (skipFiller fuel rest)
        pure (item :: items, rest)
      | _ => none

/-- Reads the members of a table on one line and its closing brace. -/
def members? : Nat → Nat → Entries → List Char → Option (Entries × List Char)
  | 0, _, _, _ => none
  | fuel + 1, room, entries, cs => do
    let ((path, name), rest) ← place? fuel cs
    match rest with
    | '=' :: rest => do
      let (item, rest) ← value? fuel room (skipBlanks rest)
      let entries ← Entries.insert entries path name item
      match skipBlanks rest with
      | '\x7d' :: rest => pure (entries, rest)
      | ',' :: rest => members? fuel room entries rest
      | _ => none
    | _ => none

end

/-! ### Lines -/

/-- A line of a document. -/
inductive Line where
  /-- A value under a key. -/
  | entry (path : List String) (name : String) (item : Item)
  /-- The header of a table. -/
  | header (path : List String) (name : String)
  /-- The header of one of several tables under a name. -/
  | element (path : List String) (name : String)

/-- Reads the key of a header and the brackets that close it. -/
def header? (fuel : Nat) (close : List Char) (cs : List Char) :
    Option ((List String × String) × List Char) := do
  let (place, rest) ← place? fuel cs
  if close.isPrefixOf rest then
    let rest ← afterLine? (rest.drop close.length)
    pure (place, rest)
  else none

/-- Reads a line that is neither empty nor a comment alone. -/
def line? (fuel : Nat) (cs : List Char) : Option (Line × List Char) :=
  match cs with
  | '[' :: '[' :: rest => do
    let ((path, name), rest) ← header? fuel [']', ']'] rest
    pure (.element path name, rest)
  | '[' :: rest => do
    let ((path, name), rest) ← header? fuel [']'] rest
    pure (.header path name, rest)
  | cs => do
    let ((path, name), rest) ← place? fuel cs
    match rest with
    | '=' :: rest => do
      let (item, rest) ← value? fuel nestingLimit (skipBlanks rest)
      let rest ← afterLine? rest
      pure (.entry path name item, rest)
    | _ => none

/-- Reads every line of a document. -/
def lines? (size : Nat) : Nat → List Char → Option (List Line)
  | 0, _ => none
  | fuel + 1, cs =>
    match skipBlanks cs with
    | [] => some []
    | '#' :: rest =>
      match afterLine? ('#' :: rest) with
      | some rest => lines? size fuel rest
      | none => none
    | rest =>
      match afterNewline? rest with
      | some rest => lines? size fuel rest
      | none => do
        let (line, rest) ← line? size rest
        let lines ← lines? size fuel rest
        pure (line :: lines)

/-! ### Building tables -/

/-- Adds the values at the start of a list of lines to a table. -/
def fill : List Line → Entries → Option Entries
  | .entry path name item :: rest, entries => do
    let entries ← Entries.insert entries path name item
    fill rest entries
  | _, entries => some entries

/-- Adds the tables that headers open to the document. -/
def addTables : List Line → Entries → Option Entries
  | [], entries => some entries
  | .entry _ _ _ :: rest, entries => addTables rest entries
  | .header path name :: rest, entries => do
    let entries ← Entries.insertTable entries path name (fill rest)
    addTables rest entries
  | .element path name :: rest, entries => do
    let entries ← Entries.appendTable entries path name (fill rest)
    addTables rest entries

/-- The entries of a document. -/
def ofText? (text : String) : Option Entries := do
  let cs := match text.toList with
    | '\ufeff' :: rest => rest
    | cs => cs
  let size := 2 * cs.length + 2
  let lines ← lines? size size cs
  let entries ← fill lines []
  addTables lines entries

end BytecodeIR.Toml
