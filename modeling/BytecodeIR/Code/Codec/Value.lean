import BytecodeIR.Code.Value
import BytecodeIR.Decimal.Layout
import BytecodeIR.Decimal.Literal
import BytecodeIR.Json.Record
import BytecodeIR.Text.Quoted
/-!
Values as JSON.

A value is an object that begins with the name of its outermost node.  An expression or a call adds
its own members to that object instead of a nested one.  Doubles are numbers, except that JSON has
none for infinities and NaN: these are written as text, and any text that denotes a double is read.
-/

namespace BytecodeIR.Code

open Json (Decoder)
open Json.Decoder
open Json.Record

/-! ### Writing -/

/-- A double as JSON. -/
def encodeDouble (x : Double) : Json :=
  if x.isFinite then .number (.real x) else .string (x.text .json)

/-- A block index as JSON. -/
def BlockIndex.encode (b : BlockIndex) : Json := .natural b.toNat

/-- A label as JSON. -/
def Label.encode (l : Label) : Json := .natural l.toNat

/-- A field reference as JSON. -/
def FieldRef.encode (f : FieldRef) : Json :=
  .object [("name", .string f.name), ("class_name", .string f.className)]

/-- A method reference as JSON. -/
def MethodRef.encode (m : MethodRef) : Json :=
  .object [("class_name", .string m.className), ("name", .string m.name),
    ("params", .texts m.params)]

/-- A bootstrap as JSON, given its arguments. -/
def Bootstrap.encode (b : Bootstrap Json) : Json :=
  .object [("method", b.method.encode), ("args", .array b.args)]

/-- The members of a call, given its operands. -/
def Invoke.members (c : Invoke Json) : List (String × Json) :=
  [("kind", .string c.kind.name), ("ty", .string c.ty), ("target", c.target.encode),
    ("base", .option id c.base), ("args", .array c.args),
    ("bootstrap", .option Bootstrap.encode c.bootstrap)]

/-- A phi source as JSON, given its value. -/
def PhiArg.encode (a : PhiArg Json) : Json :=
  .object [("value", a.value), ("block", a.block.encode)]

/-- The members of an expression, given its operands. -/
def Expr.members : Expr Json → List (String × Json)
  | .binary ty op left right =>
    [("expr", .string "binop"), ("ty", .string ty), ("op", .string op.name), ("left", left),
      ("right", right)]
  | .unary ty op value =>
    [("expr", .string "unop"), ("ty", .string ty), ("op", .string op.name), ("value", value)]
  | .cast ty castType value =>
    [("expr", .string "cast"), ("ty", .string ty), ("cast_type", .string castType),
      ("value", value)]
  | .condition ty op left right =>
    [("expr", .string "condition"), ("ty", .string ty), ("op", .string op.name), ("left", left),
      ("right", right)]
  | .length ty value => [("expr", .string "length"), ("ty", .string ty), ("value", value)]
  | .newObject ty baseType =>
    [("expr", .string "new"), ("ty", .string ty), ("base_type", .string baseType)]
  | .newArray ty baseType size =>
    [("expr", .string "new_array"), ("ty", .string ty), ("base_type", .string baseType),
      ("size", size)]
  | .newMultiArray ty baseType sizes =>
    [("expr", .string "new_multi_array"), ("ty", .string ty), ("base_type", .string baseType),
      ("sizes", .array sizes)]
  | .phi ty args =>
    [("expr", .string "phi"), ("ty", .string ty), ("args", .list PhiArg.encode args)]
  | .instanceOf ty checkType value =>
    [("expr", .string "instance_of"), ("ty", .string ty), ("check_type", .string checkType),
      ("value", value)]
  | .invoke call => ("expr", .string "invoke") :: call.members

/-- The members of a node, given its operands. -/
def Node.members : Node Json → List (String × Json)
  | .localVariable ty name =>
    [("node", .string "local"), ("ty", .string ty), ("name", .string name)]
  | .arrayRef ty base index =>
    [("node", .string "array_ref"), ("ty", .string ty), ("base", base), ("index", index)]
  | .caughtException ty => [("node", .string "caught_exception_ref"), ("ty", .string ty)]
  | .param ty index =>
    [("node", .string "param_ref"), ("ty", .string ty), ("index", .natural index.toNat)]
  | .this ty => [("node", .string "this_ref"), ("ty", .string ty)]
  | .staticField ty field =>
    [("node", .string "static_field_ref"), ("ty", .string ty), ("field", field.encode)]
  | .instanceField ty base field =>
    [("node", .string "instance_field_ref"), ("ty", .string ty), ("base", base),
      ("field", field.encode)]
  | .classConstant ty value =>
    [("node", .string "class_constant"), ("ty", .string ty), ("value", .string value)]
  | .doubleConstant ty value =>
    [("node", .string "double_constant"), ("ty", .string ty), ("value", encodeDouble value)]
  | .floatConstant ty value =>
    [("node", .string "float_constant"), ("ty", .string ty), ("value", encodeDouble value)]
  | .intConstant ty value =>
    [("node", .string "int_constant"), ("ty", .string ty), ("value", .integer value.toInt)]
  | .longConstant ty value =>
    [("node", .string "long_constant"), ("ty", .string ty), ("value", .integer value.toInt)]
  | .nullConstant ty => [("node", .string "null_constant"), ("ty", .string ty)]
  | .stringConstant ty value =>
    [("node", .string "string_constant"), ("ty", .string ty), ("value", .string value)]
  | .expr e => ("node", .string "expr") :: e.members

/-- A node as JSON, given its operands. -/
def Node.encode (n : Node Json) : Json := .object n.members

/-- A value as JSON. -/
def Value.encode (v : Value) : Json := v.fold Node.encode

/-- The members of a call. -/
def Invoke.encodedMembers (c : Invoke Value) : List (String × Json) := (c.map Value.encode).members

/-! ### Reading -/

/-- Reads a double from a number, or from a text that denotes one. -/
def doubleDecoder : Decoder Double := fun _ doc =>
  if ¬ doc.isReadable then .error .malformed
  else
    match doc with
    | .number (.integer i) => .ok (.ofInt i)
    | .number (.real x) => .ok x
    | .string s =>
      match Double.ofText? s with
      | some x => .ok x
      | none => .error (.refused ("invalid real constant " ++ Text.quoted s))
    | _ => .error .wrongShape

/-- Reads a label. -/
def Label.decoder : Decoder Label := uint32.map .mk

/-- Reads a block index. -/
def BlockIndex.decoder : Decoder BlockIndex := uint32.map .mk

/-- Reads an operator by its name. -/
def Opcode.decoder : Decoder Opcode := named (Opcode.all.map fun op => (op.name, op))

/-- Reads a kind of call by its name. -/
def InvokeKind.decoder : Decoder InvokeKind := named (InvokeKind.all.map fun k => (k.name, k))

/-- Reads a field reference. -/
def FieldRef.decoder : Decoder FieldRef :=
  (FieldRef.mk <$> required "name" string <*> required "class_name" string).decoder

/-- Reads a method reference. -/
def MethodRef.decoder : Decoder MethodRef :=
  (MethodRef.mk <$> required "class_name" string <*> required "name" string <*>
    required "params" (list string)).decoder

section Layers

variable {α : Type}

/-- Reads a bootstrap, given a reader of its arguments. -/
def Bootstrap.decoder (operand : Decoder α) : Decoder (Bootstrap α) :=
  (Bootstrap.mk <$> required "method" MethodRef.decoder <*>
    required "args" (list operand)).decoder

/-- Reads a call, given a reader of its operands. -/
def Invoke.decoder (operand : Decoder α) : Decoder (Invoke α) :=
  (Invoke.mk <$> required "kind" InvokeKind.decoder <*> required "ty" string <*>
    required "target" MethodRef.decoder <*> nullable "base" operand <*>
    required "args" (list operand) <*> nullable "bootstrap" (Bootstrap.decoder operand)).decoder

/-- Reads a phi source, given a reader of its value. -/
def PhiArg.decoder (operand : Decoder α) : Decoder (PhiArg α) :=
  (PhiArg.mk <$> required "value" operand <*> required "block" BlockIndex.decoder).decoder

/-- The expressions by name, given a reader of operands. -/
def Expr.variants (operand : Decoder α) : List (String × Decoder (Expr α)) :=
  let ty := required "ty" string
  let op := required "op" Opcode.decoder
  let value := required "value" operand
  let left := required "left" operand
  let right := required "right" operand
  let baseType := required "base_type" string
  [("binop", (Expr.binary <$> ty <*> op <*> left <*> right).decoder),
    ("unop", (Expr.unary <$> ty <*> op <*> value).decoder),
    ("cast", (Expr.cast <$> ty <*> required "cast_type" string <*> value).decoder),
    ("condition", (Expr.condition <$> ty <*> op <*> left <*> right).decoder),
    ("length", (Expr.length <$> ty <*> value).decoder),
    ("new", (Expr.newObject <$> ty <*> baseType).decoder),
    ("new_array", (Expr.newArray <$> ty <*> baseType <*> required "size" operand).decoder),
    ("new_multi_array",
      (Expr.newMultiArray <$> ty <*> baseType <*> required "sizes" (list operand)).decoder),
    ("phi", (Expr.phi <$> ty <*> required "args" (list (PhiArg.decoder operand))).decoder),
    ("instance_of", (Expr.instanceOf <$> ty <*> required "check_type" string <*> value).decoder),
    ("invoke", (Invoke.decoder operand).map .invoke)]

/-- The nodes by name, given a reader of operands. -/
def Node.variants (operand : Decoder α) : List (String × Decoder (Node α)) :=
  let ty := required "ty" string
  let field := required "field" FieldRef.decoder
  let base := required "base" operand
  [("local", (Node.localVariable <$> ty <*> required "name" string).decoder),
    ("array_ref", (Node.arrayRef <$> ty <*> base <*> required "index" operand).decoder),
    ("caught_exception_ref", (Node.caughtException <$> ty).decoder),
    ("param_ref", (Node.param <$> ty <*> required "index" uint32).decoder),
    ("this_ref", (Node.this <$> ty).decoder),
    ("static_field_ref", (Node.staticField <$> ty <*> field).decoder),
    ("instance_field_ref", (Node.instanceField <$> ty <*> base <*> field).decoder),
    ("class_constant", (Node.classConstant <$> ty <*> required "value" string).decoder),
    ("double_constant", (Node.doubleConstant <$> ty <*> required "value" doubleDecoder).decoder),
    ("float_constant", (Node.floatConstant <$> ty <*> required "value" doubleDecoder).decoder),
    ("int_constant", (Node.intConstant <$> ty <*> required "value" int32).decoder),
    ("long_constant", (Node.longConstant <$> ty <*> required "value" int64).decoder),
    ("null_constant", (Node.nullConstant <$> ty).decoder),
    ("string_constant", (Node.stringConstant <$> ty <*> required "value" string).decoder),
    ("expr", (tagged "expr" (Expr.variants operand)).map .expr)]

/-- Reads a node, given a reader of its operands. -/
def Node.decoder (operand : Decoder α) : Decoder (Node α) := tagged "node" (Node.variants operand)

end Layers

/-- Reads a value in which at most `height` nodes lie above one another. -/
def Value.decoderUpTo : Nat → Decoder Value
  | 0 => fun _ doc => .error doc.entryRefusal
  | height + 1 => (Node.decoder (Value.decoderUpTo height)).map .of

/-- Reads a value.  A node opens a bracket, so the depth of the document bounds the height. -/
def Value.decoder : Decoder Value := fun src doc => Value.decoderUpTo (doc.depth + 1) src doc

end BytecodeIR.Code
