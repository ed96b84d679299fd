import BytecodeIR.Decimal.Rounding
/-!
Operands as an analysis engine reports them.

An operand is a record with a slot for everything that any kind of operand needs; its kind is a
name, and which slots count depends on it.  Nothing says that the slots which count are filled, or
that the others are empty.  `Slots` leaves open what the operands inside a record are, so that a
rule for one record is a function out of `Slots α`, and `Operand.fold` applies it to a whole tree.
-/

namespace BytecodeIR.Dump

/-- The handle of an instruction. -/
structure InstructionId where
  val : UInt32
deriving DecidableEq, Inhabited, Hashable

/-- A handle as messages show it. -/
def InstructionId.text (id : InstructionId) : String := "u" ++ toString id.val.toNat

/-- What a constant is. -/
inductive Constant where
  | integer (i : Int64)
  | real (x : Double)
  | text (s : String)
deriving DecidableEq, Inhabited

/-- A field and the class that declares it. -/
structure FieldRef where
  name : String
  declaringClass : String
deriving DecidableEq, Inhabited

/-- A called method. -/
structure MethodRef where
  declaringClass : String
  name : String
  params : List String
deriving DecidableEq, Inhabited

/-- A source of a phi: a value, and the instruction that produced it. -/
structure PhiSource (α : Type) where
  value : α
  origin : InstructionId
deriving DecidableEq

/-- The record of one operand, with operands of type `α` inside. -/
structure Slots (α : Type) where
  kind : String
  ty : String
  name : Option String
  value : Option Constant
  paramIndex : Option UInt32
  field : Option FieldRef
  /-- The array, the object of a field or the receiver of a call. -/
  base : Option α
  index : Option α
  left : Option α
  right : Option α
  /-- The operand of what has a single one. -/
  single : Option α
  castType : Option String
  checkType : Option String
  baseType : Option String
  size : Option α
  sizes : List α
  method : Option MethodRef
  args : List α
  bootstrapMethod : Option MethodRef
  bootstrapArgs : List α
  phiSources : List (PhiSource α)

/-- An operand: a record with operands inside. -/
inductive Operand where
  | of (slots : Slots Operand)

section Layers

variable {α β : Type}

/-- Replaces the value of a phi source. -/
def PhiSource.map (f : α → β) (s : PhiSource α) : PhiSource β := ⟨f s.value, s.origin⟩

/-- Replaces the operands inside a record. -/
def Slots.map (f : α → β) (s : Slots α) : Slots β where
  kind := s.kind
  ty := s.ty
  name := s.name
  value := s.value
  paramIndex := s.paramIndex
  field := s.field
  base := s.base.map f
  index := s.index.map f
  left := s.left.map f
  right := s.right.map f
  single := s.single.map f
  castType := s.castType
  checkType := s.checkType
  baseType := s.baseType
  size := s.size.map f
  sizes := s.sizes.map f
  method := s.method
  args := s.args.map f
  bootstrapMethod := s.bootstrapMethod
  bootstrapArgs := s.bootstrapArgs.map f
  phiSources := s.phiSources.map (·.map f)

/-- A record with no slot filled. -/
def Slots.ofKind (kind ty : String) : Slots α where
  kind := kind
  ty := ty
  name := none
  value := none
  paramIndex := none
  field := none
  base := none
  index := none
  left := none
  right := none
  single := none
  castType := none
  checkType := none
  baseType := none
  size := none
  sizes := []
  method := none
  args := []
  bootstrapMethod := none
  bootstrapArgs := []
  phiSources := []

end Layers

/-- The record of an operand. -/
def Operand.slots : Operand → Slots Operand
  | .of s => s

/-- The kind of an operand. -/
def Operand.kind (o : Operand) : String := o.slots.kind

section Fold

variable {β : Type}

mutual

/-- Applies a rule for one record to a whole operand, the operands inside first. -/
def Operand.fold (rule : Slots β → β) : Operand → β
  | .of s => rule (foldSlots rule s)

/-- Folds the operands inside a record. -/
def foldSlots (rule : Slots β → β) : Slots Operand → Slots β
  | ⟨kind, ty, name, value, paramIndex, field, base, index, left, right, single, castType,
      checkType, baseType, size, sizes, method, args, bootstrapMethod, bootstrapArgs,
      phiSources⟩ =>
    ⟨kind, ty, name, value, paramIndex, field, foldSlot rule base, foldSlot rule index,
      foldSlot rule left, foldSlot rule right, foldSlot rule single, castType, checkType, baseType,
      foldSlot rule size, foldOperands rule sizes, method, foldOperands rule args, bootstrapMethod,
      foldOperands rule bootstrapArgs, foldPhiSources rule phiSources⟩

/-- Folds the operand in a slot. -/
def foldSlot (rule : Slots β → β) : Option Operand → Option β
  | none => none
  | some o => some (o.fold rule)

/-- Folds a list of operands. -/
def foldOperands (rule : Slots β → β) : List Operand → List β
  | [] => []
  | o :: rest => o.fold rule :: foldOperands rule rest

/-- Folds the sources of a phi. -/
def foldPhiSources (rule : Slots β → β) : List (PhiSource Operand) → List (PhiSource β)
  | [] => []
  | ⟨o, origin⟩ :: rest => ⟨o.fold rule, origin⟩ :: foldPhiSources rule rest

end

private theorem foldSlot_eq_map (rule : Slots β → β) (slot : Option Operand) :
    foldSlot rule slot = slot.map (Operand.fold rule) := by
  cases slot <;> rfl

private theorem foldOperands_eq_map (rule : Slots β → β) (os : List Operand) :
    foldOperands rule os = os.map (Operand.fold rule) := by
  induction os with
  | nil => rfl
  | cons o rest ih => simp [foldOperands, ih]

private theorem foldPhiSources_eq_map (rule : Slots β → β) (sources : List (PhiSource Operand)) :
    foldPhiSources rule sources = sources.map (·.map (Operand.fold rule)) := by
  induction sources with
  | nil => rfl
  | cons s rest ih => simp [foldPhiSources, PhiSource.map, ih]

/-- Folding an operand applies the rule to the record with the operands inside folded. -/
@[simp] theorem Operand.fold_of (rule : Slots β → β) (s : Slots Operand) :
    (Operand.of s).fold rule = rule (s.map (Operand.fold rule)) := by
  obtain ⟨⟩ := s
  simp [Operand.fold, foldSlots, Slots.map, foldSlot_eq_map, foldOperands_eq_map,
    foldPhiSources_eq_map]

end Fold

end BytecodeIR.Dump
