import BytecodeIR.Code.Listing
import BytecodeIR.Hierarchy
import BytecodeIR.Lifting
import BytecodeIR.Service.Frame
import BytecodeIR.Service.Request
import BytecodeIR.Settings.Codec
/-!
Sessions of the service.

A session holds at most one lifted program.  Each request is answered from what the session holds,
and an operation that fails is answered by a failure frame and changes nothing: neither the program
that is held nor any file.
-/

namespace BytecodeIR.Service

/-- A lifted program. -/
structure Instance where
  classes : Code.ClassMap
  hierarchy : Hierarchy
deriving DecidableEq

/-- A session. -/
structure Session where
  /-- The program that the last successful initialisation lifted. -/
  program : Option Instance
  /-- Whether the session was told to end. -/
  closed : Bool
deriving DecidableEq

/-- A session that has just begun. -/
def Session.fresh : Session := ⟨none, false⟩

/-- Why an operation fails. -/
inductive Fault where
  | file (error : FileError)
  | document (problem : Json.Problem)
  | lifting (fault : LiftingFault)
  | noProgram
  | unknownOperation (operation : String)
  | missingArgument (operation name : String)
deriving DecidableEq

/-- The wording of a fault. -/
def Fault.message : Fault → String
  | file error => error.message
  | document problem => "JSON error: " ++ problem.message
  | lifting fault => fault.message
  | noProgram => "No lifter instance; send __init__ first"
  | unknownOperation operation => "Unknown operation " ++ operation
  | missingArgument operation name =>
    "Operation " ++ operation ++ " needs a string argument " ++ name

/-- The text of the first argument of a request. -/
def Request.firstText (r : Request) (name : String) : Except Fault String :=
  match r.text? 0 name with
  | some s => .ok s
  | none => .error (.missingArgument r.operation name)

/-! ### Initialisation -/

/-- The settings that a request gives. -/
def Request.settings (r : Request) : Except Fault Settings :=
  match r.named.get? "config" with
  | some j => (Settings.decoder.ofJson j).mapError .document
  | none => .ok .default

/-- Lifts the program that a request names. -/
def initialise (r : Request) (files : Tree) : Except Fault (Instance × Tree) := do
  let settings ← r.settings
  let path ← r.firstText "program"
  (settings.check files).mapError fun f => .lifting (.settings f)
  let program ← (Dump.Program.ofFile ⟨path⟩ files).mapError .lifting
  let (classes, files) ← (settings.lift program files).mapError .lifting
  .ok (⟨classes, .ofProgram program⟩, files)

/-! ### Queries -/

/-- Every class of a program as JSON. -/
def Instance.classesJson (i : Instance) : Json := (Code.encodeClasses i.classes).sorted

/-- The answer to a query, which does not depend on how it travels back. -/
def Instance.query (i : Instance) (r : Request) : Except Fault Json :=
  match r.operation with
  | "get_classes" => .ok i.classesJson
  | "subclasses_of" => do
    let name ← r.firstText "name"
    match i.hierarchy.subclasses? name with
    | some names => .ok (.texts names)
    | none => .error (.lifting (.unknownClass name))
  | "render_class" => do
    let name ← r.firstText "name"
    match i.classes.get? name with
    | some c => .ok (.string c.listing)
    | none => .error (.lifting (.unknownClass name))
  | operation => .error (.unknownOperation operation)

/-- The frames that a result travels back in, and the files after it has been saved. -/
def respond (t : Transport) (result : Json) (files : Tree) : Except Fault (List Frame × Tree) :=
  match t.saveTo with
  | some path => do
    let files ← (files.write path result.text).mapError .file
    .ok ([if t.sendsBack then .unit none (some result.text) else .done], files)
  | none =>
    let whole : Frame :=
      .unit (if t.returnResult then some result else none)
        (if t.returnText then some result.text else none)
    if ¬ t.sendsBack then .ok ([.done], files)
    else if t.parts = 0 ∨ t.returnText then .ok ([whole], files)
    else .ok ((split? result t.parts).getD [whole], files)

/-! ### Requests -/

/-- The failure frame of a request. -/
def Request.failure (r : Request) (f : Fault) : List Frame := [.failed r.operation f.message]

/-- Answers a query with frames. -/
def Session.answer (s : Session) (r : Request) (files : Tree) :
    Except Fault (List Frame × Tree) := do
  match s.program with
  | none => .error .noProgram
  | some i => do
    let result ← i.query r
    respond r.transport result files

/-- Answers a request: the frames to send back, the session and the files after it. -/
def Session.handle (s : Session) (r : Request) (files : Tree) : List Frame × Session × Tree :=
  match r.operation with
  | "__exit" => ([.done], { s with closed := true }, files)
  | "__init__" =>
    match initialise r files with
    | .ok (i, files) => ([.done], { s with program := some i }, files)
    | .error f => (r.failure f, s, files)
  | _ =>
    match s.answer r files with
    | .ok (frames, files) => (frames, s, files)
    | .error f => (r.failure f, s, files)

end BytecodeIR.Service
