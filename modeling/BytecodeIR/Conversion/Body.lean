import BytecodeIR.Code.Method
import BytecodeIR.Conversion.Statement
/-!
The conversion of method bodies.

A body is converted in two passes.  The first makes the statements of every block and notes the
block that each instruction lies in.  The second finds the sources of the phis, for which it needs
those notes, and puts them in.  Handles serve to find instructions and for nothing else.
-/

namespace BytecodeIR.Conversion

open Code (BlockIndex EdgeMap Label PhiArg Value)
open Dump (Body InstructionId)

/-- The block that each instruction lies in, the latest first. -/
abbrev Placement := List (InstructionId × BlockIndex)

/-- The first handle that stands in a list for the second time. -/
def firstRepeated? : List InstructionId → List InstructionId → Option InstructionId
  | _, [] => none
  | seen, id :: rest => if id ∈ seen then some id else firstRepeated? (id :: seen) rest

/-- Whether every instruction has a handle of its own. -/
def checkHandles (b : Body) : Except Failure Unit :=
  match firstRepeated? [] (b.instructions.map (·.id)) with
  | some id => .error (.duplicateInstruction id)
  | none => .ok ()

/-! ### First pass -/

/-- The statements of a block, and where its instructions lie. -/
def blockStatements (b : Body) (dialect : Dialect) (index : BlockIndex) :
    Placement → List InstructionId → Except Failure (List Code.Statement × Placement)
  | placed, [] => .ok ([], placed)
  | placed, id :: rest => do
    if (placed.lookup id).isSome then throw (.duplicateInstruction id)
    let i ← instruction b id
    let s ← statement b i dialect
    let (more, placed) ← blockStatements b dialect index ((id, index) :: placed) rest
    .ok (s :: more, placed)

/-- The statements of the blocks from a position on, and where their instructions lie. -/
def bodyStatements (b : Body) (dialect : Dialect) :
    Nat → Placement → List Dump.Block → Except Failure (List (List Code.Statement) × Placement)
  | _, placed, [] => .ok ([], placed)
  | position, placed, block :: rest => do
    if block.instructions.isEmpty then throw (.emptyBlock position)
    let (statements, placed) ←
      blockStatements b dialect (.ofNat position) placed block.instructions
    let (more, placed) ← bodyStatements b dialect (position + 1) placed rest
    .ok (statements :: more, placed)

/-! ### Relations between blocks -/

/-- The indices of blocks at given positions in a method of `count` blocks. -/
def indices (count : Nat) (positions : List UInt64) : Except Failure (List BlockIndex) :=
  positions.mapM fun position =>
    if position.toNat < count then .ok (.ofNat position.toNat)
    else .error (.unknownBlock position.toNat count)

/-- The ends of the edges at one block: normal ones, and exceptional ones. -/
def blockEdges (count : Nat) (block : Dump.Block) :
    Except Failure (List BlockIndex × List BlockIndex) := do
  let normal ← indices count block.successors
  let exceptional ← indices count block.exceptionalPredecessors
  .ok (normal, exceptional)

/-- The relation in which each block leads to the list at its position. -/
def edgeMap (lists : List (List BlockIndex)) : EdgeMap :=
  .ofList ((lists.zipIdx.filter fun e => !e.1.isEmpty).map fun e => (.ofNat e.2, e.1))

/-! ### Second pass -/

/-- A source of the phi at a label: its value, and the block that its instruction lies in. -/
def phiArg (placed : Placement) (here : Label) (s : Dump.PhiSource Dump.Operand) :
    Except Failure (PhiArg Value) :=
  match placed.lookup s.origin with
  | none => .error (.unresolvedSource here s.origin)
  | some block => do
    let value ← s.value.convert
    .ok ⟨value, block⟩

/-- The sources of every phi of a body under the label of its assignment. -/
def phiArgs (b : Body) (dialect : Dialect) (placed : Placement) :
    Except Failure (List (Label × List (PhiArg Value))) :=
  if dialect.hasPhis then
    (b.instructions.filterMap fun i => (phiSources? i).map fun sources => (i.id, sources)).mapM
      fun e => do
        let here ← label b e.1
        let args ← e.2.mapM (phiArg placed here)
        .ok (here, args)
  else .ok []

/-- Puts the sources of phis into the statements of a block. -/
def withSources (phis : List (Label × List (PhiArg Value))) (statements : List Code.Statement) :
    List Code.Statement :=
  statements.map fun s =>
    match phis.lookup s.label with
    | some args => s.withPhiArgs args
    | none => s

/-- The block at a position. -/
def block (position : Nat) (statements : List Code.Statement) : Except Failure Code.Block :=
  match Code.Block.ofStatements? (.ofNat position) statements with
  | some b => .ok b
  | none => .error (.emptyBlock position)

/-- The blocks of given statements, from position zero on. -/
def blocks (lists : List (List Code.Statement)) : Except Failure (List Code.Block) :=
  lists.zipIdx.mapM fun e => block e.2 e.1

end BytecodeIR.Conversion
