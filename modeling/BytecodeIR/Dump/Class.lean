import BytecodeIR.Dialect
import BytecodeIR.Dump.Operand
/-!
Classes as an analysis engine reports them.

The body of a method is a list of instructions, in the order of the code, and a list of blocks that
name instructions by their handles.  Equal instructions at different places have different handles.
Blocks name one another by position.  Nothing says that a dump is consistent.
-/

namespace BytecodeIR.Dump

/-- One instruction, with a slot for everything that any kind of instruction needs. -/
structure Instruction where
  id : InstructionId
  kind : String
  left : Option Operand
  right : Option Operand
  /-- The object of a monitor, the value returned or the value thrown. -/
  single : Option Operand
  condition : Option Operand
  invoke : Option Operand
  key : Option Operand
  target : Option InstructionId
  targets : List InstructionId
  defaultTarget : Option InstructionId
  lookupValues : List Int32
  low : Option Int32
  high : Option Int32

/-- An instruction with no slot filled. -/
def Instruction.ofKind (id : InstructionId) (kind : String) : Instruction where
  id := id
  kind := kind
  left := none
  right := none
  single := none
  condition := none
  invoke := none
  key := none
  target := none
  targets := []
  defaultTarget := none
  lookupValues := []
  low := none
  high := none

/-- A block of instructions. -/
structure Block where
  /-- The instructions in the order in which they run. -/
  instructions : List InstructionId
  /-- The positions of the blocks that control goes to normally. -/
  successors : List UInt64
  /-- The positions of the blocks from which control comes through an exception handler only. -/
  exceptionalPredecessors : List UInt64

/-- The body of a method. -/
structure Body where
  instructions : List Instruction
  blocks : List Block

/-- The first instruction with a handle. -/
def Body.instruction? (b : Body) (id : InstructionId) : Option Instruction :=
  b.instructions.find? fun i => i.id == id

/-- A declared field. -/
structure Field where
  name : String
  ty : String
  modifiers : UInt32

/-- A declared method. -/
structure Method where
  name : String
  params : List String
  returnType : String
  modifiers : UInt32
  exceptions : List String
  /-- The body, which an abstract or native method lacks. -/
  body : Option Body

/-- A class. -/
structure Class where
  name : String
  superClass : Option String
  interfaces : List String
  modifiers : UInt32
  /-- Whether the class belongs to the analysed application. -/
  application : Bool
  library : Bool
  javaLibrary : Bool
  phantom : Bool
  fields : List Field
  methods : List Method

/-- Everything that was reported of one input. -/
structure Program where
  dialect : Dialect
  classes : List Class

/-- The first class with a name. -/
def Program.class? (p : Program) (name : String) : Option Class :=
  p.classes.find? fun c => c.name == name

end BytecodeIR.Dump
