/-
What a kind uses of a record.

The record of an operand or of an instruction has a slot for everything that any kind
needs, and the kind says which of them count.  The tables below say it for every kind,
without reference to conversion; a record of no known kind uses none.  Clearing empties
the slots that are not used, in every instruction and at every depth of its operands.

Clearing looks at the kind of a record, and at whether a dynamic call has a bootstrap,
but at no operand.  So it does not matter whether the operands inside a record are
replaced before or after it.
-/
import BytecodeIR.Dump.Kind
import BytecodeIR.Proofs.Dump.Operand

namespace BytecodeIR.Dump

open Code (InvokeKind)

/-! ### Operands -/

/-- The slots of an operand that not every kind has. -/
inductive Slot where
  | name | value | paramIndex | field | base | index | left | right | single | castType | checkType
  | baseType | size | sizes | method | args | bootstrapMethod | bootstrapArgs | phiSources
deriving DecidableEq

/-- The slots that a kind of operand uses that is no expression. -/
def ValueKind.uses : ValueKind → List Slot
  | .localVariable => [.name]
  | .arrayRef => [.base, .index]
  | .instanceField => [.base, .field]
  | .staticField => [.field]
  | .param => [.paramIndex]
  | .caughtException | .this | .nullConstant => []
  | .classConstant | .doubleConstant | .floatConstant | .intConstant | .longConstant
  | .stringConstant => [.value]

/-- The slots that a call uses; only a bootstrap has static arguments. -/
def callUses (linked : Bool) : InvokeKind → List Slot
  | .dynamic => [.method, .base, .args, .bootstrapMethod] ++ if linked then [.bootstrapArgs] else []
  | _ => [.method, .base, .args]

/-- The slots that a kind of expression uses, a dynamic call being linked by a bootstrap or not. -/
def ExprKind.uses (linked : Bool) : ExprKind → List Slot
  | .binary _ | .condition _ => [.left, .right]
  | .unary _ | .length => [.single]
  | .cast => [.single, .castType]
  | .instanceOf => [.single, .checkType]
  | .newObject => [.baseType]
  | .newArray => [.baseType, .size]
  | .newMultiArray => [.baseType, .sizes]
  | .phi => [.phiSources]
  | .invoke kind => callUses linked kind

section Record

variable {α β : Type}

/-- The slots that a record uses. -/
def Slots.used (s : Slots α) : List Slot :=
  let kind := normalizeKind s.kind
  match ExprKind.ofName? kind, ValueKind.ofName? kind with
  | some k, _ => k.uses s.bootstrapMethod.isSome
  | none, some k => k.uses
  | none, none => []

/-- Empties all slots but some. -/
def Slots.keep (kept : List Slot) (s : Slots α) : Slots α where
  kind := s.kind
  ty := s.ty
  name := if .name ∈ kept then s.name else none
  value := if .value ∈ kept then s.value else none
  paramIndex := if .paramIndex ∈ kept then s.paramIndex else none
  field := if .field ∈ kept then s.field else none
  base := if .base ∈ kept then s.base else none
  index := if .index ∈ kept then s.index else none
  left := if .left ∈ kept then s.left else none
  right := if .right ∈ kept then s.right else none
  single := if .single ∈ kept then s.single else none
  castType := if .castType ∈ kept then s.castType else none
  checkType := if .checkType ∈ kept then s.checkType else none
  baseType := if .baseType ∈ kept then s.baseType else none
  size := if .size ∈ kept then s.size else none
  sizes := if .sizes ∈ kept then s.sizes else []
  method := if .method ∈ kept then s.method else none
  args := if .args ∈ kept then s.args else []
  bootstrapMethod := if .bootstrapMethod ∈ kept then s.bootstrapMethod else none
  bootstrapArgs := if .bootstrapArgs ∈ kept then s.bootstrapArgs else []
  phiSources := if .phiSources ∈ kept then s.phiSources else []

/-- Empties the slots that a record does not use. -/
def Slots.clear (s : Slots α) : Slots α := s.keep s.used

@[simp] theorem Slots.kind_keep (kept : List Slot) (s : Slots α) :
    (s.keep kept).kind = s.kind := rfl

@[simp] theorem Slots.ty_keep (kept : List Slot) (s : Slots α) : (s.keep kept).ty = s.ty := rfl

theorem Slots.keep_map (kept : List Slot) (f : α → β) (s : Slots α) :
    (s.keep kept).map f = (s.map f).keep kept := by
  simp only [keep, map, apply_ite (Option.map f), apply_ite (List.map f), Option.map_none,
    List.map_nil, apply_ite (List.map (PhiSource.map f))]

theorem Slots.used_map (f : α → β) (s : Slots α) : (s.map f).used = s.used := by
  simp only [used, map]

/-- Operands can be replaced before slots are emptied or after it. -/
theorem Slots.clear_map (f : α → β) (s : Slots α) : s.clear.map f = (s.map f).clear := by
  rw [clear, clear, keep_map, used_map]

end Record

/-- Empties the slots that an operand does not use, at every depth. -/
def Operand.clear (o : Operand) : Operand := o.fold fun s => .of s.clear

theorem Operand.clear_of (s : Slots Operand) :
    (Operand.of s).clear = .of (s.map Operand.clear).clear := fold_of _ s

@[simp] theorem Operand.slots_clear (o : Operand) :
    o.clear.slots = (o.slots.map Operand.clear).clear := by
  obtain ⟨s⟩ := o
  rw [clear_of]
  rfl

/-- A local variable has no use for a base, of whatever kind this is. -/
example :
    let x : Slots Operand := { Slots.ofKind "Local" "int" with name := some "x" }
    (Operand.of { x with base := some (.of (.ofKind "Nonsense" "int")) }).clear = .of x := by
  cbv

/-! ### Instructions -/

/-- The slots of an instruction. -/
inductive Part where
  | left | right | single | condition | invoke | key | target | targets | defaultTarget
  | lookupValues | low | high
deriving DecidableEq

/-- The slots that a kind of instruction uses. -/
def InstructionKind.uses : InstructionKind → List Part
  | .assign | .identity => [.left, .right]
  | .breakpoint | .leave => []
  | .enterMonitor | .exitMonitor | .giveBack | .throw => [.single]
  | .goto => [.target]
  | .branch => [.condition, .target]
  | .invoke => [.invoke]
  | .lookupSwitch => [.key, .targets, .defaultTarget, .lookupValues]
  | .tableSwitch => [.key, .targets, .defaultTarget, .low, .high]

namespace Instruction

/-- The slots that an instruction uses. -/
def used (i : Instruction) : List Part :=
  match InstructionKind.ofName? i.kind with
  | some k => k.uses
  | none => []

/-- Empties all slots but some. -/
def keep (kept : List Part) (i : Instruction) : Instruction where
  id := i.id
  kind := i.kind
  left := if .left ∈ kept then i.left else none
  right := if .right ∈ kept then i.right else none
  single := if .single ∈ kept then i.single else none
  condition := if .condition ∈ kept then i.condition else none
  invoke := if .invoke ∈ kept then i.invoke else none
  key := if .key ∈ kept then i.key else none
  target := if .target ∈ kept then i.target else none
  targets := if .targets ∈ kept then i.targets else []
  defaultTarget := if .defaultTarget ∈ kept then i.defaultTarget else none
  lookupValues := if .lookupValues ∈ kept then i.lookupValues else []
  low := if .low ∈ kept then i.low else none
  high := if .high ∈ kept then i.high else none

/-- Replaces the operands of an instruction. -/
def mapOperands (f : Operand → Operand) (i : Instruction) : Instruction :=
  { i with
    left := i.left.map f
    right := i.right.map f
    single := i.single.map f
    condition := i.condition.map f
    invoke := i.invoke.map f
    key := i.key.map f }

/-- Empties the slots that an instruction and its operands do not use. -/
def clear (i : Instruction) : Instruction := (i.keep i.used).mapOperands Operand.clear

theorem kind_clear (i : Instruction) : i.clear.kind = i.kind := rfl

end Instruction

/-- Empties what is not used in the instructions of a body, listed or not. -/
def Body.clear (b : Body) : Body := { b with instructions := b.instructions.map Instruction.clear }

/-- Empties what is not used in the body of a method. -/
def Method.clear (m : Method) : Method := { m with body := m.body.map Body.clear }

end BytecodeIR.Dump
