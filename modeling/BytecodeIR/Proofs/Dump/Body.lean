/-
The handles of a method body.

Instructions are known by their handles, and a body does not promise that its
handles are in order.  This file names what can be asked of them: whether no
handle stands twice, at which position a handle stands, and which handles are
listed in blocks.  Handles are words of 32 bits, so a list without repetitions
has at most as many of them as there are such words, and every position in it is
such a word too.
-/
import BytecodeIR.Dump.Class
import BytecodeIR.Proofs.Success
import Mathlib.Data.Fintype.Card

namespace BytecodeIR.Dump

/-- There are as many handles as words of 32 bits. -/
theorem length_le_of_nodup {ids : List InstructionId} (h : ids.Nodup) :
    ids.length ≤ UInt32.size := by
  have hinj : Function.Injective fun id : InstructionId => id.val.toFin := by
    rintro ⟨a⟩ ⟨b⟩ hab
    obtain rfl : a = b := UInt32.toFin_inj.mp hab
    rfl
  have hcard := (h.map hinj).length_le_card
  rwa [List.length_map, Fintype.card_fin] at hcard

namespace Body

/-- The handles of a body, in the order of its instructions. -/
def handles (b : Body) : List InstructionId := b.instructions.map (·.id)

/-- No two instructions have one handle. -/
def DistinctHandles (b : Body) : Prop := b.handles.Nodup

/-- The handles that are listed in blocks, block by block. -/
def placed (b : Body) : List InstructionId := b.blocks.flatMap (·.instructions)

/-- The instruction with a handle stands at a position of the body. -/
def StandsAt (b : Body) (id : InstructionId) (position : Nat) : Prop :=
  b.handles[position]? = some id

theorem mem_placed {b : Body} {id : InstructionId} :
    id ∈ b.placed ↔ ∃ block ∈ b.blocks, id ∈ block.instructions :=
  List.mem_flatMap

variable {b : Body} {id id' : InstructionId} {n n' : Nat}

theorem StandsAt.lt_length (h : b.StandsAt id n) : n < b.handles.length :=
  (List.getElem?_eq_some_iff.mp h).1

theorem StandsAt.mem (h : b.StandsAt id n) : id ∈ b.handles := List.mem_of_getElem? h

/-- A position belongs to one handle only. -/
theorem StandsAt.handle_unique (h : b.StandsAt id n) (h' : b.StandsAt id' n) : id = id' :=
  Option.some.inj (h.symm.trans h')

/-- A handle stands at one position only. -/
theorem StandsAt.position_unique (hb : b.DistinctHandles) (h : b.StandsAt id n)
    (h' : b.StandsAt id n') : n = n' :=
  (List.getElem?_inj h.lt_length hb).mp (h.trans h'.symm)

/-- Every position fits into a label. -/
theorem StandsAt.lt_size (hb : b.DistinctHandles) (h : b.StandsAt id n) : n < UInt32.size :=
  Nat.lt_of_lt_of_le h.lt_length (length_le_of_nodup hb)

/-- The instruction found under a handle has it and belongs to the body. -/
theorem mem_of_instruction? {i : Instruction} (h : b.instruction? id = some i) :
    i ∈ b.instructions ∧ i.id = id :=
  ⟨List.mem_of_find?_eq_some h, by simpa using List.find?_some h⟩

/-- Every instruction of the body is found under its own handle. -/
theorem instruction?_id (hb : b.DistinctHandles) {i : Instruction} (hi : i ∈ b.instructions) :
    b.instruction? i.id = some i :=
  (find?_key_eq_some hb).mpr ⟨hi, rfl⟩

theorem exists_instruction? (h : id ∈ b.handles) : ∃ i, b.instruction? id = some i := by
  obtain ⟨i, hi, rfl⟩ := List.mem_map.mp h
  exact Option.isSome_iff_exists.mp (List.find?_isSome.mpr ⟨i, hi, by simp⟩)

end Body

end BytecodeIR.Dump
