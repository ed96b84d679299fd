import BytecodeIR.Code.Value
import BytecodeIR.Decimal.Literal
import BytecodeIR.Dump.Kind
import BytecodeIR.Conversion.Failure
/-!
The conversion of operands.

The conversion of an operand is a rule for one record, applied from the inside out: the rule is
given what became of the operands inside and uses only those that the kind of the record calls for.
So an operand in a slot that does not count may be anything.  A phi is refused wherever it is met
here; the only place for one is the right-hand side of an assignment, and there it is no operand.
-/

namespace BytecodeIR.Conversion

open Code (Value Node Expr Invoke InvokeKind Bootstrap)
open Dump (Slots Operand)

/-- What became of an operand inside a record. -/
abbrev Outcome := Except Failure Value

/-- A method reference of the code. -/
def methodRef (m : Dump.MethodRef) : Code.MethodRef := ⟨m.declaringClass, m.name, m.params⟩

/-- A field reference of the code. -/
def fieldRef (f : Dump.FieldRef) : Code.FieldRef := ⟨f.name, f.declaringClass⟩

/-- The values of a list of operands. -/
def values (operands : List Outcome) : Except Failure (List Value) := operands.mapM id

section Rule

variable (s : Slots Outcome)

/-- The value of an operand that has to be there. -/
def operand (name : String) (slot : Option Outcome) : Outcome := do
  let outcome ← require s.kind name slot
  outcome

/-- The field that a record refers to. -/
def requireField : Except Failure Code.FieldRef := (require s.kind "field" s.field).map fieldRef

/-- The constant of a record as a text. -/
def textConstant : Except Failure String := do
  match ← require s.kind "value" s.value with
  | .text text => .ok text
  | _ => .error (.unexpectedOperand s.kind "text")

/-- The constant of a record as an integer. -/
def integerConstant : Except Failure Int64 := do
  match ← require s.kind "value" s.value with
  | .integer i => .ok i
  | _ => .error (.unexpectedOperand s.kind "integer")

/-- The constant of a record as an integer of 32 bits. -/
def shortConstant : Except Failure Int32 := do
  let i ← integerConstant s
  if Int32.minValue.toInt ≤ i.toInt ∧ i.toInt ≤ Int32.maxValue.toInt then .ok (.ofInt i.toInt)
  else .error (.unexpectedOperand s.kind "32-bit integer")

/-- The constant of a record as a double; a text has to denote one. -/
def realConstant : Except Failure Double := do
  match ← require s.kind "value" s.value with
  | .real x => .ok x
  | .integer i => .ok (.ofInt i.toInt)
  | .text text =>
    match Double.ofText? text with
    | some x => .ok x
    | none => .error (.unexpectedOperand s.kind "floating-point")

/-- The receiver of a call. -/
def receiver (kind : InvokeKind) : Except Failure (Option Value) :=
  match s.base with
  | some base =>
    if kind = .static then .error (.unexpectedOperand s.kind "no receiver")
    else base.map some
  | none =>
    if kind.needsReceiver then .error (.missingOperand s.kind "base") else .ok none

/-- What links a dynamic call. -/
def bootstrap (kind : InvokeKind) : Except Failure (Option (Bootstrap Value)) :=
  match kind, s.bootstrapMethod with
  | .dynamic, some method => do
    let args ← values s.bootstrapArgs
    .ok (some ⟨methodRef method, args⟩)
  | _, _ => .ok none

/-- The call that a record stands for. -/
def call (kind : InvokeKind) : Except Failure (Invoke Value) := do
  let target ← require s.kind "method" s.method
  let base ← receiver s kind
  let link ← bootstrap s kind
  let args ← values s.args
  .ok ⟨kind, s.ty, methodRef target, base, args, link⟩

/-- The expression that a record of a given kind stands for. -/
def expr : Dump.ExprKind → Except Failure (Expr Value)
  | .binary op => do
    let left ← operand s "op1" s.left
    let right ← operand s "op2" s.right
    .ok (.binary s.ty op left right)
  | .condition op => do
    let left ← operand s "op1" s.left
    let right ← operand s "op2" s.right
    .ok (.condition s.ty op left right)
  | .unary op => do
    let value ← operand s "op" s.single
    .ok (.unary s.ty op value)
  | .cast => do
    let castType ← require s.kind "cast_type" s.castType
    let value ← operand s "op" s.single
    .ok (.cast s.ty castType value)
  | .length => do
    let value ← operand s "op" s.single
    .ok (.length s.ty value)
  | .newObject => do
    let baseType ← require s.kind "base_type" s.baseType
    .ok (.newObject s.ty baseType)
  | .newArray => do
    let baseType ← require s.kind "base_type" s.baseType
    let size ← operand s "size" s.size
    .ok (.newArray s.ty baseType size)
  | .newMultiArray => do
    let baseType ← require s.kind "base_type" s.baseType
    let sizes ← values s.sizes
    .ok (.newMultiArray s.ty baseType sizes)
  | .instanceOf => do
    let checkType ← require s.kind "check_type" s.checkType
    let value ← operand s "op" s.single
    .ok (.instanceOf s.ty checkType value)
  | .phi => .error .misplacedPhi
  | .invoke kind => do
    let c ← call s kind
    .ok (.invoke c)

/-- The node that a record of a given kind stands for. -/
def node : Dump.ValueKind → Except Failure (Node Value)
  | .localVariable => do
    let name ← require s.kind "name" s.name
    .ok (.localVariable s.ty name)
  | .arrayRef => do
    let base ← operand s "base" s.base
    let index ← operand s "index" s.index
    .ok (.arrayRef s.ty base index)
  | .caughtException => .ok (.caughtException s.ty)
  | .instanceField => do
    let base ← operand s "base" s.base
    let field ← requireField s
    .ok (.instanceField s.ty base field)
  | .param => do
    let index ← require s.kind "param_index" s.paramIndex
    .ok (.param s.ty index)
  | .this => .ok (.this s.ty)
  | .staticField => do
    let field ← requireField s
    .ok (.staticField s.ty field)
  | .classConstant => do
    let value ← textConstant s
    .ok (.classConstant s.ty value)
  | .doubleConstant => do
    let value ← realConstant s
    .ok (.doubleConstant s.ty value)
  | .floatConstant => do
    let value ← realConstant s
    .ok (.floatConstant s.ty value)
  | .intConstant => do
    let value ← shortConstant s
    .ok (.intConstant s.ty value)
  | .longConstant => do
    let value ← integerConstant s
    .ok (.longConstant s.ty value)
  | .nullConstant => .ok (.nullConstant s.ty)
  | .stringConstant => do
    let value ← textConstant s
    .ok (.stringConstant s.ty value)

/-- The value that a record stands for. -/
def value : Outcome :=
  let kind := Dump.normalizeKind s.kind
  if Dump.isExprKind kind then
    match Dump.ExprKind.ofName? kind with
    | some k => (expr s k).map Value.ofExpr
    | none => .error (.unsupportedExpr s.kind)
  else
    match Dump.ValueKind.ofName? kind with
    | some k => (node s k).map Value.of
    | none => .error (.unsupportedValue s.kind)

end Rule

end BytecodeIR.Conversion

namespace BytecodeIR.Dump.Operand

/-- The value that an operand stands for. -/
def convert (o : Operand) : Conversion.Outcome := o.fold Conversion.value

/-- The kind of expression that an operand is, if it is a known one. -/
def exprKind? (o : Operand) : Option ExprKind := ExprKind.ofName? (normalizeKind o.kind)

/-- Whether an operand is a phi. -/
def isPhi (o : Operand) : Bool := o.exprKind? == some .phi

/-- The call that an operand stands for, given its kind. -/
def convertCall (o : Operand) (kind : Code.InvokeKind) :
    Except Conversion.Failure (Code.Invoke Code.Value) :=
  Conversion.call (o.slots.map convert) kind

end BytecodeIR.Dump.Operand
