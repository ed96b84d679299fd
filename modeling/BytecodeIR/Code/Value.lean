import BytecodeIR.Code.Index
import BytecodeIR.Code.Opcode
import BytecodeIR.Decimal.Rounding
/-!
The operands of statements.

A value is a tree, and each of its nodes is a `Node` whose operands are values.  `Node` leaves open
what its operands are: a rule for one node, given what the rule made of the operands, is a function
out of `Node α`, and `Value.fold` applies it to a whole tree.  What holds of a tree is shown node by
node with `Value.induct`.
-/

namespace BytecodeIR.Code

/-- A field by its name and the class that declares it. -/
structure FieldRef where
  name : String
  className : String
deriving DecidableEq, Inhabited

/-- A method by its class, its name and the types of its parameters. -/
structure MethodRef where
  className : String
  name : String
  params : List String
deriving DecidableEq, Inhabited

/-- What links a dynamic call: a method and its static arguments. -/
structure Bootstrap (α : Type) where
  method : MethodRef
  args : List α
deriving DecidableEq

/-- A call. -/
structure Invoke (α : Type) where
  kind : InvokeKind
  ty : String
  target : MethodRef
  /-- The receiver, which a static call lacks. -/
  base : Option α
  args : List α
  bootstrap : Option (Bootstrap α)
deriving DecidableEq

/-- One source of a phi: a value, and the block that control comes from when it is taken. -/
structure PhiArg (α : Type) where
  value : α
  block : BlockIndex
deriving DecidableEq

/-- An operator applied to operands of type `α`. -/
inductive Expr (α : Type) where
  | binary (ty : String) (op : Opcode) (left right : α)
  | unary (ty : String) (op : Opcode) (value : α)
  | cast (ty castType : String) (value : α)
  | condition (ty : String) (op : Opcode) (left right : α)
  | length (ty : String) (value : α)
  | newObject (ty baseType : String)
  | newArray (ty baseType : String) (size : α)
  | newMultiArray (ty baseType : String) (sizes : List α)
  | phi (ty : String) (args : List (PhiArg α))
  | instanceOf (ty checkType : String) (value : α)
  | invoke (call : Invoke α)
deriving DecidableEq

/-- One node of a value, with operands of type `α`. -/
inductive Node (α : Type) where
  | localVariable (ty name : String)
  | arrayRef (ty : String) (base index : α)
  | caughtException (ty : String)
  | param (ty : String) (index : UInt32)
  | this (ty : String)
  | staticField (ty : String) (field : FieldRef)
  | instanceField (ty : String) (base : α) (field : FieldRef)
  | classConstant (ty value : String)
  | doubleConstant (ty : String) (value : Double)
  | floatConstant (ty : String) (value : Double)
  | intConstant (ty : String) (value : Int32)
  | longConstant (ty : String) (value : Int64)
  | nullConstant (ty : String)
  | stringConstant (ty value : String)
  | expr (e : Expr α)
deriving DecidableEq

/-- An operand: a node whose operands are again values. -/
inductive Value where
  | of (node : Node Value)

/-! ### Operands of a node -/

section Layers

variable {α β : Type}

/-- Replaces the operands of a bootstrap. -/
def Bootstrap.map (f : α → β) (b : Bootstrap α) : Bootstrap β := ⟨b.method, b.args.map f⟩

/-- Replaces the operands of a call. -/
def Invoke.map (f : α → β) (c : Invoke α) : Invoke β :=
  ⟨c.kind, c.ty, c.target, c.base.map f, c.args.map f, c.bootstrap.map (·.map f)⟩

/-- Replaces the value of a phi source. -/
def PhiArg.map (f : α → β) (a : PhiArg α) : PhiArg β := ⟨f a.value, a.block⟩

/-- Replaces the operands of an expression. -/
def Expr.map (f : α → β) : Expr α → Expr β
  | .binary ty op l r => .binary ty op (f l) (f r)
  | .unary ty op v => .unary ty op (f v)
  | .cast ty castType v => .cast ty castType (f v)
  | .condition ty op l r => .condition ty op (f l) (f r)
  | .length ty v => .length ty (f v)
  | .newObject ty baseType => .newObject ty baseType
  | .newArray ty baseType size => .newArray ty baseType (f size)
  | .newMultiArray ty baseType sizes => .newMultiArray ty baseType (sizes.map f)
  | .phi ty args => .phi ty (args.map (·.map f))
  | .instanceOf ty checkType v => .instanceOf ty checkType (f v)
  | .invoke call => .invoke (call.map f)

/-- Replaces the operands of a node. -/
def Node.map (f : α → β) : Node α → Node β
  | .localVariable ty name => .localVariable ty name
  | .arrayRef ty base index => .arrayRef ty (f base) (f index)
  | .caughtException ty => .caughtException ty
  | .param ty index => .param ty index
  | .this ty => .this ty
  | .staticField ty field => .staticField ty field
  | .instanceField ty base field => .instanceField ty (f base) field
  | .classConstant ty value => .classConstant ty value
  | .doubleConstant ty value => .doubleConstant ty value
  | .floatConstant ty value => .floatConstant ty value
  | .intConstant ty value => .intConstant ty value
  | .longConstant ty value => .longConstant ty value
  | .nullConstant ty => .nullConstant ty
  | .stringConstant ty value => .stringConstant ty value
  | .expr e => .expr (e.map f)

/-- The operands of a call: receiver, arguments, bootstrap arguments. -/
def Invoke.operands (c : Invoke α) : List α :=
  c.base.toList ++ c.args ++ (c.bootstrap.map (·.args)).getD []

/-- The operands of an expression. -/
def Expr.operands : Expr α → List α
  | .binary _ _ l r => [l, r]
  | .unary _ _ v => [v]
  | .cast _ _ v => [v]
  | .condition _ _ l r => [l, r]
  | .length _ v => [v]
  | .newObject _ _ => []
  | .newArray _ _ size => [size]
  | .newMultiArray _ _ sizes => sizes
  | .phi _ args => args.map (·.value)
  | .instanceOf _ _ v => [v]
  | .invoke call => call.operands

/-- The operands of a node. -/
def Node.operands : Node α → List α
  | .arrayRef _ base index => [base, index]
  | .instanceField _ base _ => [base]
  | .expr e => e.operands
  | _ => []

/-- The static type of an expression. -/
def Expr.ty : Expr α → String
  | .binary ty _ _ _ => ty
  | .unary ty _ _ => ty
  | .cast ty _ _ => ty
  | .condition ty _ _ _ => ty
  | .length ty _ => ty
  | .newObject ty _ => ty
  | .newArray ty _ _ => ty
  | .newMultiArray ty _ _ => ty
  | .phi ty _ => ty
  | .instanceOf ty _ _ => ty
  | .invoke call => call.ty

/-- The static type of a node. -/
def Node.ty : Node α → String
  | .localVariable ty _ => ty
  | .arrayRef ty _ _ => ty
  | .caughtException ty => ty
  | .param ty _ => ty
  | .this ty => ty
  | .staticField ty _ => ty
  | .instanceField ty _ _ => ty
  | .classConstant ty _ => ty
  | .doubleConstant ty _ => ty
  | .floatConstant ty _ => ty
  | .intConstant ty _ => ty
  | .longConstant ty _ => ty
  | .nullConstant ty => ty
  | .stringConstant ty _ => ty
  | .expr e => e.ty

/-- Whether a node is a constant. -/
def Node.isConstant : Node α → Bool
  | .classConstant _ _ => true
  | .doubleConstant _ _ => true
  | .floatConstant _ _ => true
  | .intConstant _ _ => true
  | .longConstant _ _ => true
  | .nullConstant _ => true
  | .stringConstant _ _ => true
  | _ => false

/-- Whether an expression is a phi. -/
def Expr.isPhi : Expr α → Bool
  | .phi _ _ => true
  | _ => false

end Layers

/-! ### Values -/

namespace Value

/-- The outermost node. -/
def node : Value → Node Value
  | .of n => n

/-- The expression that a value is, if it is one. -/
def asExpr? (v : Value) : Option (Expr Value) :=
  match v.node with
  | .expr e => some e
  | _ => none

/-- The static type of a value. -/
def ty (v : Value) : String := v.node.ty

/-- Whether a value is a constant. -/
def isConstant (v : Value) : Bool := v.node.isConstant

/-- A local variable. -/
def localVariable (name ty : String) : Value := .of (.localVariable ty name)

/-- An integer constant. -/
def int (i : Int32) : Value := .of (.intConstant "int" i)

/-- A string constant. -/
def string (s : String) : Value := .of (.stringConstant "java.lang.String" s)

/-- An expression as a value. -/
def ofExpr (e : Expr Value) : Value := .of (.expr e)

end Value

section Fold

variable {β : Type}

mutual

/-- Applies a rule for one node to a whole value, operands first. -/
def Value.fold (rule : Node β → β) : Value → β
  | .of n => rule (foldNode rule n)

/-- Folds the operands of a node. -/
def foldNode (rule : Node β → β) : Node Value → Node β
  | .localVariable ty name => .localVariable ty name
  | .arrayRef ty base index => .arrayRef ty (base.fold rule) (index.fold rule)
  | .caughtException ty => .caughtException ty
  | .param ty index => .param ty index
  | .this ty => .this ty
  | .staticField ty field => .staticField ty field
  | .instanceField ty base field => .instanceField ty (base.fold rule) field
  | .classConstant ty value => .classConstant ty value
  | .doubleConstant ty value => .doubleConstant ty value
  | .floatConstant ty value => .floatConstant ty value
  | .intConstant ty value => .intConstant ty value
  | .longConstant ty value => .longConstant ty value
  | .nullConstant ty => .nullConstant ty
  | .stringConstant ty value => .stringConstant ty value
  | .expr e => .expr (foldExpr rule e)

/-- Folds the operands of an expression. -/
def foldExpr (rule : Node β → β) : Expr Value → Expr β
  | .binary ty op l r => .binary ty op (l.fold rule) (r.fold rule)
  | .unary ty op v => .unary ty op (v.fold rule)
  | .cast ty castType v => .cast ty castType (v.fold rule)
  | .condition ty op l r => .condition ty op (l.fold rule) (r.fold rule)
  | .length ty v => .length ty (v.fold rule)
  | .newObject ty baseType => .newObject ty baseType
  | .newArray ty baseType size => .newArray ty baseType (size.fold rule)
  | .newMultiArray ty baseType sizes => .newMultiArray ty baseType (foldValues rule sizes)
  | .phi ty args => .phi ty (foldPhiArgs rule args)
  | .instanceOf ty checkType v => .instanceOf ty checkType (v.fold rule)
  | .invoke call => .invoke (foldInvoke rule call)

/-- Folds the operands of a call. -/
def foldInvoke (rule : Node β → β) : Invoke Value → Invoke β
  | ⟨kind, ty, target, base, args, bootstrap⟩ =>
    ⟨kind, ty, target, foldOptional rule base, foldValues rule args, foldBootstrap rule bootstrap⟩

/-- Folds the static arguments of a bootstrap. -/
def foldBootstrap (rule : Node β → β) : Option (Bootstrap Value) → Option (Bootstrap β)
  | none => none
  | some ⟨method, args⟩ => some ⟨method, foldValues rule args⟩

/-- Folds an optional value. -/
def foldOptional (rule : Node β → β) : Option Value → Option β
  | none => none
  | some v => some (v.fold rule)

/-- Folds a list of values. -/
def foldValues (rule : Node β → β) : List Value → List β
  | [] => []
  | v :: rest => v.fold rule :: foldValues rule rest

/-- Folds the sources of a phi. -/
def foldPhiArgs (rule : Node β → β) : List (PhiArg Value) → List (PhiArg β)
  | [] => []
  | ⟨v, block⟩ :: rest => ⟨v.fold rule, block⟩ :: foldPhiArgs rule rest

end

private theorem foldValues_eq_map (rule : Node β → β) (vs : List Value) :
    foldValues rule vs = vs.map (Value.fold rule) := by
  induction vs with
  | nil => rfl
  | cons v rest ih => simp [foldValues, ih]

private theorem foldPhiArgs_eq_map (rule : Node β → β) (args : List (PhiArg Value)) :
    foldPhiArgs rule args = args.map (·.map (Value.fold rule)) := by
  induction args with
  | nil => rfl
  | cons a rest ih => simp [foldPhiArgs, PhiArg.map, ih]

private theorem foldInvoke_eq_map (rule : Node β → β) (c : Invoke Value) :
    foldInvoke rule c = c.map (Value.fold rule) := by
  obtain ⟨kind, ty, target, base, args, bootstrap⟩ := c
  rcases base with _ | b <;> rcases bootstrap with _ | ⟨m, bs⟩ <;>
    simp [foldInvoke, Invoke.map, Bootstrap.map, foldOptional, foldBootstrap, foldValues_eq_map]

/-- Folding the operands of a call replaces each by its fold. -/
theorem foldExpr_eq_map (rule : Node β → β) (e : Expr Value) :
    foldExpr rule e = e.map (Value.fold rule) := by
  cases e <;>
    simp [foldExpr, Expr.map, foldValues_eq_map, foldPhiArgs_eq_map, foldInvoke_eq_map]

/-- Folding a value applies the rule to the node with its operands folded. -/
@[simp] theorem Value.fold_of (rule : Node β → β) (n : Node Value) :
    (Value.of n).fold rule = rule (n.map (Value.fold rule)) := by
  cases n <;> simp [Value.fold, foldNode, Node.map, foldExpr_eq_map]

end Fold

/-! ### Induction -/

private theorem sizeOf_lt_of_mem_invoke {c : Invoke Value} {v : Value} (h : v ∈ c.operands) :
    sizeOf v < sizeOf c := by
  obtain ⟨kind, ty, target, base, args, bootstrap⟩ := c
  simp only [Invoke.operands, List.mem_append, Option.mem_toList] at h
  rcases h with (h | h) | h
  · subst h
    simp
    omega
  · have := List.sizeOf_lt_of_mem h
    simp
    omega
  · rcases bootstrap with _ | ⟨m, bs⟩
    · simp at h
    · have hbs : v ∈ bs := by simpa using h
      have := List.sizeOf_lt_of_mem hbs
      simp
      omega

private theorem sizeOf_lt_of_mem_expr {e : Expr Value} {v : Value} (h : v ∈ e.operands) :
    sizeOf v < sizeOf e := by
  cases e with
  | invoke call =>
    have := sizeOf_lt_of_mem_invoke (c := call) h
    simp
    omega
  | phi ty args =>
    obtain ⟨a, ha, rfl⟩ := List.mem_map.mp h
    have := List.sizeOf_lt_of_mem ha
    cases a
    simp at this ⊢
    omega
  | newMultiArray ty baseType sizes =>
    have hsizes : v ∈ sizes := h
    have := List.sizeOf_lt_of_mem hsizes
    simp
    omega
  | _ => simp [Expr.operands] at h <;> (try rcases h with rfl | rfl) <;> simp <;> omega

/-- An operand is smaller than the value that it belongs to. -/
theorem Value.sizeOf_lt_of_mem_operands {n : Node Value} {v : Value} (h : v ∈ n.operands) :
    sizeOf v < sizeOf (Value.of n) := by
  cases n with
  | expr e =>
    have := sizeOf_lt_of_mem_expr (e := e) h
    simp
    omega
  | arrayRef ty base index =>
    simp [Node.operands] at h
    rcases h with rfl | rfl <;> simp <;> omega
  | instanceField ty base field =>
    simp [Node.operands] at h
    subst h
    simp
    omega
  | _ => simp [Node.operands] at h

/-- A property that passes from the operands of a node to the node holds of every value. -/
@[elab_as_elim] theorem Value.induct {p : Value → Prop}
    (step : ∀ n : Node Value, (∀ v ∈ n.operands, p v) → p (.of n)) : ∀ v, p v
  | .of n => step n fun v _ => Value.induct step v
termination_by v => sizeOf v
decreasing_by exact Value.sizeOf_lt_of_mem_operands ‹_›

end BytecodeIR.Code
