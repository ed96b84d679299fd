import BytecodeIR.Code.Codec.Class
import BytecodeIR.Conversion.Class
import BytecodeIR.Dump.Codec
import BytecodeIR.Settings.Basic
/-!
Lifting a program: from the dump of a program, and settings, to its converted classes.

Only classes of the application are lifted, and either all of them are or the lifting fails.  If the
settings name a file, the classes are saved there before anything is answered, in a form from which
they can be loaded again; a lifting that fails writes nothing.
-/

namespace BytecodeIR

/-- Why a program cannot be lifted. -/
inductive LiftingFault where
  | conversion (failure : Conversion.Failure)
  | unknownClass (name : String)
  | settings (fault : SettingsFault)
  | file (path : Path) (error : FileError)
  | document (problem : Json.Problem)
deriving DecidableEq

/-- The wording of a fault. -/
def LiftingFault.message : LiftingFault → String
  | conversion failure => failure.message
  | unknownClass name => "Unknown class " ++ name
  | settings fault => fault.message?.getD ""
  | file path error => "I/O error on " ++ path.text ++ ": " ++ error.message
  | document problem => "Serialization failed: " ++ problem.message

/-- The text in a file that has to be there. -/
def Tree.readText (files : Tree) (path : Path) : Except LiftingFault String :=
  (files.read path).mapError (.file path)

namespace Dump.Program

/-- Reads the dump of a program from a text. -/
def ofText (text : String) : Except LiftingFault Program :=
  (decoder.ofText text).mapError .document

/-- Reads the dump of a program from a file. -/
def ofFile (path : Path) (files : Tree) : Except LiftingFault Program := do
  let text ← files.readText path
  ofText text

/-- The conversion of every class of the application; of two classes with one name the later
counts. -/
def convert (p : Program) (dialect : Dialect) : Except Conversion.Failure Code.ClassMap := do
  let classes ← (p.classes.filter (·.application)).mapM fun c => do
    let lifted ← c.convert dialect
    .ok (c.name, lifted)
  .ok (.ofList classes)

end Dump.Program

namespace Code

/-- Saves classes in a file. -/
def saveClasses (classes : ClassMap) (path : Path) (files : Tree) : Except LiftingFault Tree :=
  (files.write path (encodeClasses classes).text).mapError (.file path)

/-- Loads classes that were saved in a file. -/
def loadClasses (path : Path) (files : Tree) : Except LiftingFault ClassMap := do
  let text ← files.readText path
  (classesDecoder.ofText text).mapError .document

end Code

namespace Settings

/-- Saves classes where the settings say, if they say so. -/
def save (s : Settings) (classes : Code.ClassMap) (files : Tree) : Except LiftingFault Tree :=
  match s.saveTo with
  | none => .ok files
  | some path => Code.saveClasses classes path files

/-- Lifts a program. -/
def lift (s : Settings) (p : Dump.Program) (files : Tree) :
    Except LiftingFault (Code.ClassMap × Tree) := do
  if p.dialect ≠ s.dialect then
    throw (.settings (.dialectMismatch s.dialect p.dialect))
  let classes ← (p.convert s.dialect).mapError .conversion
  let files ← s.save classes files
  .ok (classes, files)

/-- Lifts the first class of a program with a name, if it belongs to the application. -/
def liftClass (s : Settings) (p : Dump.Program) (name : String) :
    Except LiftingFault Code.Class :=
  match p.class? name with
  | some c =>
    if c.application then (c.convert s.dialect).mapError .conversion
    else .error (.unknownClass name)
  | none => .error (.unknownClass name)

end Settings

end BytecodeIR
