/-
Other handles for the same instructions.

A handle occurs in an instruction as its own, in what the instruction branches to, and
in the sources of phis, which stand in operands at any depth.  It occurs in the lists
of the blocks.  Renaming replaces it in all of these places; nothing else in a method
has to do with handles.
-/
import BytecodeIR.Proofs.Dump.Operand

namespace BytecodeIR.Dump

section Layers

variable {α β : Type} (f : InstructionId → InstructionId)

/-- Renames the instruction that a source comes from. -/
def PhiSource.rename (s : PhiSource α) : PhiSource α := ⟨s.value, f s.origin⟩

/-- Renames the instructions that the sources of a record come from. -/
def Slots.rename (s : Slots α) : Slots α := { s with phiSources := s.phiSources.map (·.rename f) }

theorem Slots.rename_map (g : α → β) (s : Slots α) :
    (s.rename f).map g = (s.map g).rename f := by
  simp [Slots.map, Slots.rename, PhiSource.map, PhiSource.rename, Function.comp_def]

end Layers

variable (f : InstructionId → InstructionId)

/-- Renames handles in an operand, at every depth. -/
def Operand.rename (o : Operand) : Operand := o.fold fun s => .of (s.rename f)

theorem Operand.rename_of (s : Slots Operand) :
    (Operand.of s).rename f = .of ((s.map (Operand.rename f)).rename f) := fold_of _ s

/-- Renames the origin of a source, and handles in its value. -/
def PhiSource.renameDeep (s : PhiSource Operand) : PhiSource Operand :=
  ⟨s.value.rename f, f s.origin⟩

/-- Renames handles in an instruction. -/
def Instruction.rename (i : Instruction) : Instruction :=
  { i with
    id := f i.id
    left := i.left.map (Operand.rename f)
    right := i.right.map (Operand.rename f)
    single := i.single.map (Operand.rename f)
    condition := i.condition.map (Operand.rename f)
    invoke := i.invoke.map (Operand.rename f)
    key := i.key.map (Operand.rename f)
    target := i.target.map f
    targets := i.targets.map f
    defaultTarget := i.defaultTarget.map f }

/-- Renames the instructions of a block. -/
def Block.rename (b : Block) : Block := { b with instructions := b.instructions.map f }

/-- Renames handles in a body. -/
def Body.rename (b : Body) : Body :=
  ⟨b.instructions.map (Instruction.rename f), b.blocks.map (Block.rename f)⟩

/-- Renames handles in a method. -/
def Method.rename (m : Method) : Method := { m with body := m.body.map (Body.rename f) }

end BytecodeIR.Dump
