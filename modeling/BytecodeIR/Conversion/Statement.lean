import BytecodeIR.Code.Statement
import BytecodeIR.Dump.Class
import BytecodeIR.Conversion.Operand
/-!
The conversion of instructions.

The label of a statement is the position of its instruction in the body, and a branch goes to the
label of the instruction that it names.  The sources of a phi name instructions too, but what counts
is the block that each of them lies in, which is not known yet: here a phi is left without sources.
-/

namespace BytecodeIR.Conversion

open Code (Action Label Value)
open Dump (Body Instruction InstructionId Operand)

/-- Where an instruction stands in its body. -/
def position? (b : Body) (id : InstructionId) : Option Nat :=
  b.instructions.findIdx? fun i => i.id == id

/-- The label of an instruction. -/
def label (b : Body) (id : InstructionId) : Except Failure Label :=
  match position? b id with
  | some position => .ok (.ofNat position)
  | none => .error (.unknownInstruction id)

/-- The instruction with a handle. -/
def instruction (b : Body) (id : InstructionId) : Except Failure Instruction :=
  match b.instruction? id with
  | some i => .ok i
  | none => .error (.unknownInstruction id)

section Rule

variable (b : Body) (i : Instruction)

/-- The value of an operand that has to be there. -/
def slotValue (name : String) (slot : Option Operand) : Outcome := do
  let o ← require i.kind name slot
  o.convert

/-- The label that an instruction branches to. -/
def target : Except Failure Label := do
  let id ← require i.kind "target" i.target
  label b id

/-- The label that a switch goes to when no case applies. -/
def defaultTarget : Except Failure Label := do
  let id ← require i.kind "default_target" i.defaultTarget
  label b id

/-- The right-hand side of an assignment, at a label; a phi has no sources yet. -/
def assigned (dialect : Dialect) (here : Label) (right : Operand) : Outcome :=
  if right.isPhi then
    if dialect.hasPhis then .ok (.ofExpr (.phi right.slots.ty []))
    else .error (.unwantedPhi here)
  else right.convert

/-- The values from a lower bound up to a higher one, both included. -/
def valuesBetween (low high : Int32) : List Int32 :=
  (List.range (high.toInt - low.toInt + 1).toNat).map fun k : Nat => .ofInt (low.toInt + k)

/-- The cases of a switch that selects by position: the values between its bounds, each with a
target. -/
def casesBetween (low high : Int32) (targets : List Label) : List (Int32 × Label) :=
  (valuesBetween low high).zip targets

/-- What an instruction of a given kind does, its statement standing at a label. -/
def action (dialect : Dialect) (here : Label) : Dump.InstructionKind → Except Failure Action
  | .assign => do
    let left ← slotValue i "left" i.left
    let right ← require i.kind "right" i.right
    let right ← assigned dialect here right
    .ok (.assign left right)
  | .identity => do
    let left ← slotValue i "left" i.left
    let right ← slotValue i "right" i.right
    .ok (.identity left right)
  | .breakpoint => .ok .breakpoint
  | .enterMonitor => do
    let object ← slotValue i "op" i.single
    .ok (.enterMonitor object)
  | .exitMonitor => do
    let object ← slotValue i "op" i.single
    .ok (.exitMonitor object)
  | .goto => do
    let target ← target b i
    .ok (.goto target)
  | .branch => do
    let condition ← slotValue i "condition" i.condition
    let target ← target b i
    .ok (.branch condition target)
  | .invoke => do
    let o ← require i.kind "invoke" i.invoke
    match o.exprKind? with
    | some (.invoke kind) => do
      let c ← o.convertCall kind
      .ok (.invoke c)
    | _ => .error (.unexpectedOperand i.kind "invoke expression")
  | .giveBack => do
    let value ← slotValue i "op" i.single
    .ok (.giveBack value)
  | .leave => .ok .leave
  | .lookupSwitch => do
    if i.lookupValues.length ≠ i.targets.length then
      throw (.unexpectedOperand i.kind "one target per lookup value")
    let targets ← i.targets.mapM (label b)
    let key ← slotValue i "key" i.key
    let default ← defaultTarget b i
    .ok (.lookupSwitch key (i.lookupValues.zip targets) default)
  | .tableSwitch => do
    let low ← require i.kind "low_index" i.low
    let high ← require i.kind "high_index" i.high
    if high.toInt - low.toInt + 1 ≠ i.targets.length then
      throw (.unexpectedOperand i.kind "one target per index")
    let targets ← i.targets.mapM (label b)
    let key ← slotValue i "key" i.key
    let default ← defaultTarget b i
    .ok (.tableSwitch key low high targets (casesBetween low high targets) default)
  | .throw => do
    let object ← slotValue i "op" i.single
    .ok (.throw object)

/-- The statement of an instruction. -/
def statement (dialect : Dialect) : Except Failure Code.Statement := do
  let here ← label b i.id
  match Dump.InstructionKind.ofName? i.kind with
  | some kind => do
    let a ← action b i dialect here kind
    .ok (.ofAction here a)
  | none => .error (.unsupportedStatement i.kind)

/-- The sources of the phi that an instruction assigns, if it assigns one. -/
def phiSources? : Option (List (Dump.PhiSource Operand)) :=
  if Dump.InstructionKind.ofName? i.kind = some .assign then
    match i.right with
    | some right => if right.isPhi then some right.slots.phiSources else none
    | none => none
  else none

end Rule

end BytecodeIR.Conversion
