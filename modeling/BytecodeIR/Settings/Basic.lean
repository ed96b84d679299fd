import BytecodeIR.Dialect
import BytecodeIR.Files.Tree
/-!
Settings of a conversion.

They say which archive was analysed and what its class path was made of, in which dialect the code
comes, and where the result goes.  Whether settings make sense may depend on the files that they
name, and is checked before anything is converted.
-/

namespace BytecodeIR

/-- The kind of archive that a program comes in. -/
inductive Archive where
  | jar
  | apk
deriving DecidableEq, Inhabited

namespace Archive

/-- Both kinds of archives. -/
def all : List Archive := [jar, apk]

/-- The name of a kind of archive. -/
def name : Archive → String
  | jar => "jar"
  | apk => "apk"

/-- The kind of archive with a name. -/
def ofName? (name : String) : Option Archive := all.find? fun a => a.name == name

/-- What is said of a name that is no kind of archive. -/
def unsupportedMessage (name : String) : String :=
  BytecodeIR.unsupportedMessage "input_format" (all.map Archive.name) name

end Archive

/-- The settings of a conversion. -/
structure Settings where
  /-- The archive that was analysed. -/
  archiveFile : Option Path
  archive : Archive
  dialect : Dialect
  /-- The libraries on the class path. -/
  jars : List Path
  /-- Directories of which every library is on the class path. -/
  jarRoots : List Path
  androidSdk : Option Path
  /-- Where the converted classes are saved. -/
  saveTo : Option Path
deriving DecidableEq

/-- Settings that say nothing. -/
def Settings.default : Settings := ⟨none, .jar, .singleAssignment, [], [], none, none⟩

/-- What stands between two libraries on a class path. -/
def classPathSeparator : Char := ':'

/-- Why settings cannot be used. -/
inductive SettingsFault where
  | unsupportedDialect (name : String)
  | unsupportedArchive (name : String)
  | missingSdk
  /-- The class path could not be taken apart again. -/
  | separatorInJars (jars : List Path)
  | dialectMismatch (configured program : Dialect)
  | unreadable (path : Path) (error : FileError)
  /-- The text of the settings has another form, with an objection if there is one in particular. -/
  | malformed (objection : Option String)
deriving DecidableEq

/-- The wording of a fault, where there is a fixed one. -/
def SettingsFault.message? : SettingsFault → Option String
  | unsupportedDialect name => some (Dialect.unsupportedMessage name)
  | unsupportedArchive name => some (Archive.unsupportedMessage name)
  | missingSdk =>
    some ("when input_format is apk, android_sdk should point to something like " ++
      "~/Android/Sdk/platforms")
  | separatorInJars jars =>
    some ("these jars contain the classpath separator '" ++ classPathSeparator.toString ++
      "' in their path: " ++ Text.bracketed (jars.map fun jar => Text.quoted jar.text))
  | dialectMismatch configured program =>
    some ("program was produced in " ++ program.name ++ " but the lifter is configured for " ++
      configured.name)
  | unreadable path error => some ("Failed to read " ++ path.text ++ ": " ++ error.message)
  | malformed objection => objection

namespace Settings

/-! ### The class path -/

/-- The libraries in a directory. -/
def jarsIn (files : Tree) (root : Path) : Except SettingsFault (List Path) :=
  match files.list root with
  | .error e => .error (.unreadable root e)
  | .ok names =>
    .ok ((names.filter fun name => Path.extension? name == some "jar").map root.entry)

/-- Libraries under their components.  Of equal paths that are listed the last spelling counts, of
equal paths that are only found the first. -/
def jarMap (listed found : List Path) : SortedMap (List Component) Path :=
  found.foldl (fun m jar => m.insertNew jar.components jar)
    (.ofList (listed.map fun jar => (jar.components, jar)))

/-- The libraries on the class path, in the order of their paths. -/
def libraryJars (s : Settings) (files : Tree) : Except SettingsFault (List Path) := do
  let found ← s.jarRoots.mapM (jarsIn files)
  .ok (jarMap s.jars found.flatten).values

/-- The class path. -/
def classPath (s : Settings) (files : Tree) : Except SettingsFault String := do
  let jars ← s.libraryJars files
  .ok (classPathSeparator.toString.intercalate (jars.map Path.text))

/-! ### Checking -/

/-- Whether a path contains the separator of class paths. -/
def containsSeparator (p : Path) : Bool := p.text.toList.contains classPathSeparator

/-- Checks settings against the files. -/
def check (s : Settings) (files : Tree) : Except SettingsFault Unit :=
  match s.archive with
  | .jar => do
    let jars ← s.libraryJars files
    let bad := jars.filter containsSeparator
    if bad.isEmpty then .ok () else .error (.separatorInJars bad)
  | .apk => if s.androidSdk.isSome then .ok () else .error .missingSdk

/-- What is noted about settings that have no effect. -/
def warnings (s : Settings) : List String :=
  match s.archive with
  | .jar =>
    if s.androidSdk.isSome then ["when input_format is 'jar', setting android_sdk is pointless"]
    else []
  | .apk =>
    if s.androidSdk.isSome ∧ ¬ (s.jars.isEmpty ∧ s.jarRoots.isEmpty) then
      ["when input_format is 'apk', setting additional_jars or additional_jar_roots is pointless"]
    else []

end Settings

end BytecodeIR
