/-
What a well-formed dump of a method is.

Nothing here mentions conversion.  A record says by its kind which of its slots
count, and it is well formed if those are filled with what the kind needs; what
stands in the other slots does not matter.  For operands the condition goes down
through the operands that count, so it is the fold of a condition on one record.
An instruction is judged within its body, because it names other instructions.
A phi is nowhere a well-formed operand: the one place for it is the whole
right-hand side of an assignment, and only in the dialect that has phis.

`Conversion/Acceptance.lean` shows that these are exactly the methods which can
be converted.
-/
import BytecodeIR.Code.Attribute
import BytecodeIR.Decimal.Literal
import BytecodeIR.Dump.Kind
import BytecodeIR.Proofs.Dump.Body
import BytecodeIR.Proofs.Dump.Operand

namespace BytecodeIR.Dump

open Code (InvokeKind)

/-- A slot is filled, and with something fit. -/
def Holds {α : Type} (fit : α → Prop) (slot : Option α) : Prop := ∃ a, slot = some a ∧ fit a

/-- A constant denotes a double: a number, or a text that is one. -/
def Constant.IsReal : Constant → Prop
  | .integer _ => True
  | .real _ => True
  | .text t => ∃ x, Double.ofText? t = some x

section Record

variable {α : Type} (fit : α → Prop) (s : Slots α)

/-- What a call of a kind needs: a receiver unless the kind has none or can do without, and static
arguments only for a bootstrap that is there. -/
structure Slots.FitsCall (kind : InvokeKind) : Prop where
  target : s.method.isSome
  receiver : kind.needsReceiver = true → s.base.isSome
  noReceiver : kind = .static → s.base = none
  base : ∀ a, s.base = some a → fit a
  args : ∀ a ∈ s.args, fit a
  bootstrapArgs : kind = .dynamic → s.bootstrapMethod.isSome → ∀ a ∈ s.bootstrapArgs, fit a

/-- What an expression of a kind needs. -/
def Slots.FitsExpr : ExprKind → Prop
  | .binary _ => Holds fit s.left ∧ Holds fit s.right
  | .condition _ => Holds fit s.left ∧ Holds fit s.right
  | .unary _ => Holds fit s.single
  | .cast => s.castType.isSome ∧ Holds fit s.single
  | .length => Holds fit s.single
  | .newObject => s.baseType.isSome
  | .newArray => s.baseType.isSome ∧ Holds fit s.size
  | .newMultiArray => s.baseType.isSome ∧ ∀ a ∈ s.sizes, fit a
  | .instanceOf => s.checkType.isSome ∧ Holds fit s.single
  | .phi => False
  | .invoke kind => s.FitsCall fit kind

/-- What an operand of a kind that is no expression needs. -/
def Slots.FitsNode : ValueKind → Prop
  | .localVariable => s.name.isSome
  | .arrayRef => Holds fit s.base ∧ Holds fit s.index
  | .caughtException => True
  | .instanceField => Holds fit s.base ∧ s.field.isSome
  | .param => s.paramIndex.isSome
  | .this => True
  | .staticField => s.field.isSome
  | .classConstant => ∃ t, s.value = some (.text t)
  | .doubleConstant => Holds Constant.IsReal s.value
  | .floatConstant => Holds Constant.IsReal s.value
  | .intConstant => ∃ i, s.value = some (.integer i) ∧ -0x80000000 ≤ i.toInt ∧ i.toInt < 0x80000000
  | .longConstant => ∃ i, s.value = some (.integer i)
  | .nullConstant => True
  | .stringConstant => ∃ t, s.value = some (.text t)

/-- The kind of a record is known, and the record has what the kind needs. -/
def Slots.Fits : Prop :=
  (∃ k, ExprKind.ofName? (normalizeKind s.kind) = some k ∧ s.FitsExpr fit k) ∨
    ∃ k, ValueKind.ofName? (normalizeKind s.kind) = some k ∧ s.FitsNode fit k

end Record

namespace Operand

/-- An operand is well formed if its record fits, the operands in it being well formed. -/
def WellFormed (o : Operand) : Prop := o.fold (Slots.Fits id)

/-- The operand is a call. -/
def IsCall (o : Operand) : Prop :=
  ∃ kind, ExprKind.ofName? (normalizeKind o.kind) = some (.invoke kind)

/-- The operand is a phi. -/
def IsPhi (o : Operand) : Prop := ExprKind.ofName? (normalizeKind o.kind) = some .phi

/-- The operand may stand on the right-hand side of an assignment. -/
def Assignable (dialect : Dialect) (o : Operand) : Prop :=
  o.WellFormed ∨ dialect = .singleAssignment ∧ o.IsPhi

end Operand

/-- What an instruction of a kind needs within a body. -/
def Instruction.Fits (b : Body) (dialect : Dialect) (i : Instruction) : InstructionKind → Prop
  | .assign => Holds Operand.WellFormed i.left ∧ Holds (Operand.Assignable dialect) i.right
  | .identity => Holds Operand.WellFormed i.left ∧ Holds Operand.WellFormed i.right
  | .breakpoint => True
  | .enterMonitor => Holds Operand.WellFormed i.single
  | .exitMonitor => Holds Operand.WellFormed i.single
  | .goto => Holds (· ∈ b.handles) i.target
  | .branch => Holds Operand.WellFormed i.condition ∧ Holds (· ∈ b.handles) i.target
  | .invoke => Holds (fun o => o.IsCall ∧ o.WellFormed) i.invoke
  | .giveBack => Holds Operand.WellFormed i.single
  | .leave => True
  | .lookupSwitch =>
    i.targets.length = i.lookupValues.length ∧ (∀ id ∈ i.targets, id ∈ b.handles) ∧
      Holds Operand.WellFormed i.key ∧ Holds (· ∈ b.handles) i.defaultTarget
  | .tableSwitch =>
    (∃ low high, i.low = some low ∧ i.high = some high ∧
      (i.targets.length : Int) = high.toInt - low.toInt + 1) ∧
      (∀ id ∈ i.targets, id ∈ b.handles) ∧
      Holds Operand.WellFormed i.key ∧ Holds (· ∈ b.handles) i.defaultTarget
  | .throw => Holds Operand.WellFormed i.single

/-- The kind of an instruction is known, and the instruction has what the kind needs. -/
def Instruction.WellFormed (b : Body) (dialect : Dialect) (i : Instruction) : Prop :=
  ∃ kind, InstructionKind.ofName? i.kind = some kind ∧ i.Fits b dialect kind

/-- A body is well formed in a dialect. -/
structure Body.WellFormed (dialect : Dialect) (b : Body) : Prop where
  /-- No two instructions have one handle. -/
  distinct : b.DistinctHandles
  /-- No block is empty. -/
  nonempty : ∀ block ∈ b.blocks, block.instructions ≠ []
  /-- Blocks list instructions of the body. -/
  known : ∀ id ∈ b.placed, id ∈ b.handles
  /-- No instruction is listed twice, in one block or in two. -/
  once : b.placed.Nodup
  /-- Edges go to blocks of the body and come from them. -/
  edges : ∀ block ∈ b.blocks, ∀ position ∈ block.successors ++ block.exceptionalPredecessors,
    position.toNat < b.blocks.length
  /-- Every instruction that a block lists is well formed. -/
  instructions : ∀ i ∈ b.instructions, i.id ∈ b.placed → i.WellFormed b dialect
  /-- A phi of any instruction, listed or not, takes well-formed values from listed ones. -/
  phis : dialect = .singleAssignment → ∀ i ∈ b.instructions,
    InstructionKind.ofName? i.kind = some .assign → ∀ right, i.right = some right → right.IsPhi →
      ∀ s ∈ right.slots.phiSources, s.origin ∈ b.placed ∧ s.value.WellFormed

/-- A method is well formed in a dialect: every bit of its modifiers is that of an attribute, and
its body is well formed if it has one. -/
structure Method.WellFormed (dialect : Dialect) (m : Method) : Prop where
  modifiers : ∀ n < 32, m.modifiers.toNat.testBit n = true →
    ∃ e ∈ Code.Attribute.bits, e.1.toNat = 1 <<< n
  body : ∀ b, m.body = some b → b.WellFormed dialect

/-! ### Operands within operands -/

section Layers

variable {α β : Type} {fit : β → Prop} {f : α → β} {s : Slots α}

theorem holds_map {slot : Option α} :
    Holds fit (slot.map f) ↔ Holds (fun a => fit (f a)) slot := by
  cases slot with
  | none => simp [Holds]
  | some a => simp [Holds]

theorem Slots.fitsCall_map {kind : InvokeKind} :
    (s.map f).FitsCall fit kind ↔ s.FitsCall (fun a => fit (f a)) kind := by
  constructor
  · rintro ⟨h1, h2, h3, h4, h5, h6⟩
    simp only [map, Option.map_eq_some_iff, Option.map_eq_none_iff, Option.isSome_map,
      List.forall_mem_map] at h1 h2 h3 h4 h5 h6
    exact ⟨h1, h2, h3, fun a ha => h4 _ ⟨a, ha, rfl⟩, h5, h6⟩
  · rintro ⟨h1, h2, h3, h4, h5, h6⟩
    refine ⟨h1, ?_, ?_, ?_, ?_, ?_⟩
    · simpa [map] using h2
    · simpa [map] using h3
    · intro b hb
      obtain ⟨a, ha, rfl⟩ := Option.map_eq_some_iff.mp hb
      exact h4 a ha
    · simpa [map] using h5
    · simpa [map] using h6

theorem Slots.fits_map : (s.map f).Fits fit ↔ s.Fits fun a => fit (f a) := by
  have hexpr : ∀ k, (s.map f).FitsExpr fit k ↔ s.FitsExpr (fun a => fit (f a)) k := by
    intro k
    cases k with
    | invoke kind => exact fitsCall_map
    | newMultiArray => simp [FitsExpr, map]
    | _ => simp only [FitsExpr, map, holds_map]
  have hnode : ∀ k, (s.map f).FitsNode fit k ↔ s.FitsNode (fun a => fit (f a)) k := by
    intro k
    cases k with
    | _ => simp only [FitsNode, map, holds_map]
  simp only [Fits, hexpr, hnode]
  rfl

/-- What it means for an operand to be well formed, one record at a time. -/
theorem Operand.wellFormed_of {s : Slots Operand} :
    (Operand.of s).WellFormed ↔ s.Fits Operand.WellFormed := by
  unfold WellFormed
  rw [fold_of, Slots.fits_map]
  rfl

end Layers

/-! ### Names of expressions and names of other operands -/

/-- A name of a table stands in it. -/
theorem mem_of_lookup {κ ν : Type} [BEq κ] [LawfulBEq κ] {table : List (κ × ν)} {k : κ} {v : ν}
    (h : table.lookup k = some v) : (k, v) ∈ table := by
  obtain ⟨before, after, rfl, -⟩ := List.lookup_eq_some_iff.mp h
  exact List.mem_append_right before List.mem_cons_self

theorem isExprKind_of_exprKind {name : String} {k : ExprKind}
    (h : ExprKind.ofName? name = some k) : isExprKind name = true := by
  have hall : ∀ e ∈ ExprKind.table, isExprKind e.1 = true := by decide
  exact hall _ (mem_of_lookup h)

theorem isExprKind_of_valueKind {name : String} {k : ValueKind}
    (h : ValueKind.ofName? name = some k) : isExprKind name = false := by
  have hall : ∀ e ∈ ValueKind.table, isExprKind e.1 = false := by decide
  exact hall _ (mem_of_lookup h)

end BytecodeIR.Dump
