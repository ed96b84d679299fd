import BytecodeIR.Settings.Basic
import BytecodeIR.Toml.Document
/-!
Settings in TOML.

The settings are read from the entries of the document in their order; entries that are no settings
are passed over.  Settings that are read from a text are checked at once.
-/

namespace BytecodeIR.Settings

open Toml (Item)

/-- The text of an item. -/
def itemText : Item → Except SettingsFault String
  | .string s => .ok s
  | _ => .error (.malformed none)

/-- The path that an item denotes. -/
def itemPath (item : Item) : Except SettingsFault Path := (itemText item).map .mk

/-- The paths that an item denotes. -/
def itemPaths : Item → Except SettingsFault (List Path)
  | .array items => items.mapM itemPath
  | _ => .error (.malformed none)

/-- The kind of archive that an item denotes. -/
def itemArchive (item : Item) : Except SettingsFault Archive := do
  let name ← itemText item
  match Archive.ofName? name with
  | some a => .ok a
  | none => .error (.malformed (some (Archive.unsupportedMessage name)))

/-- The dialect that an item denotes. -/
def itemDialect (item : Item) : Except SettingsFault Dialect := do
  let name ← itemText item
  match Dialect.ofName? name with
  | some d => .ok d
  | none => .error (.malformed (some (Dialect.unsupportedMessage name)))

/-- Takes one entry of a document into the settings. -/
def withEntry (s : Settings) (e : String × Item) : Except SettingsFault Settings :=
  match e.1 with
  | "input_file" => (itemPath e.2).map fun p => { s with archiveFile := some p }
  | "input_format" => (itemArchive e.2).map fun a => { s with archive := a }
  | "ir_format" => (itemDialect e.2).map fun d => { s with dialect := d }
  | "additional_jars" => (itemPaths e.2).map fun ps => { s with jars := ps }
  | "additional_jar_roots" => (itemPaths e.2).map fun ps => { s with jarRoots := ps }
  | "android_sdk" => (itemPath e.2).map fun p => { s with androidSdk := some p }
  | "save_to_file" => (itemPath e.2).map fun p => { s with saveTo := some p }
  | _ => .ok s

/-- Reads settings from a text and checks them. -/
def ofText (text : String) (files : Tree) : Except SettingsFault Settings :=
  match Toml.ofText? text with
  | none => .error (.malformed none)
  | some entries => do
    let s ← entries.foldlM withEntry .default
    s.check files
    .ok s

/-- Reads settings from a file and checks them. -/
def ofFile (path : Path) (files : Tree) : Except SettingsFault Settings :=
  match files.read path with
  | .error e => .error (.unreadable path e)
  | .ok text => ofText text files

end BytecodeIR.Settings
