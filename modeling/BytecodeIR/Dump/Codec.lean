import BytecodeIR.Dump.Class
import BytecodeIR.Json.Record
/-!
Dumps as JSON.

Most members may be absent: an absent slot is empty, an absent list has no item, and a class is
taken to belong to the application unless it is said not to.  A constant is an integer if 64 bits
hold it, any other number, or a text.
-/

namespace BytecodeIR.Dump

open Json (Decoder)
open Json.Decoder
open Json.Record

/-! ### Writing -/

/-- A handle as JSON. -/
def InstructionId.encode (id : InstructionId) : Json := .natural id.val.toNat

/-- A constant as JSON. -/
def Constant.encode : Constant → Json
  | integer i => .integer i.toInt
  | real x => .number (.real x)
  | text s => .string s

/-- A field reference as JSON. -/
def FieldRef.encode (f : FieldRef) : Json :=
  .object [("name", .string f.name), ("declaring_class", .string f.declaringClass)]

/-- A method reference as JSON. -/
def MethodRef.encode (m : MethodRef) : Json :=
  .object [("declaring_class", .string m.declaringClass), ("name", .string m.name),
    ("params", .texts m.params)]

/-- A phi source as JSON, given its value. -/
def PhiSource.encode (s : PhiSource Json) : Json :=
  .object [("value", s.value), ("unit", s.origin.encode)]

/-- An optional text as JSON. -/
def encodeText (s : Option String) : Json := .option .string s

/-- The record of an operand as JSON, given the operands inside. -/
def Slots.encode (s : Slots Json) : Json :=
  .object [("kind", .string s.kind), ("type", .string s.ty), ("name", encodeText s.name),
    ("value", .option Constant.encode s.value),
    ("param_index", .option (fun i => .natural i.toNat) s.paramIndex),
    ("field", .option FieldRef.encode s.field), ("base", .option id s.base),
    ("index", .option id s.index), ("op1", .option id s.left), ("op2", .option id s.right),
    ("op", .option id s.single), ("cast_type", encodeText s.castType),
    ("check_type", encodeText s.checkType), ("base_type", encodeText s.baseType),
    ("size", .option id s.size), ("sizes", .array s.sizes),
    ("method", .option MethodRef.encode s.method), ("args", .array s.args),
    ("bootstrap_method", .option MethodRef.encode s.bootstrapMethod),
    ("bootstrap_args", .array s.bootstrapArgs), ("phi_args", .list PhiSource.encode s.phiSources)]

/-- An operand as JSON. -/
def Operand.encode (o : Operand) : Json := o.fold Slots.encode

/-- An instruction as JSON. -/
def Instruction.encode (i : Instruction) : Json :=
  let operand := Json.option Operand.encode
  let bound : Option Int32 → Json := .option fun n => .integer n.toInt
  .object [("id", i.id.encode), ("kind", .string i.kind), ("left", operand i.left),
    ("right", operand i.right), ("op", operand i.single), ("condition", operand i.condition),
    ("invoke", operand i.invoke), ("key", operand i.key),
    ("target", .option InstructionId.encode i.target),
    ("targets", .list InstructionId.encode i.targets),
    ("default_target", .option InstructionId.encode i.defaultTarget),
    ("lookup_values", .list (fun n => .integer n.toInt) i.lookupValues),
    ("low_index", bound i.low), ("high_index", bound i.high)]

/-- A block as JSON. -/
def Block.encode (b : Block) : Json :=
  .object [("units", .list InstructionId.encode b.instructions),
    ("succs", .list (fun n => .natural n.toNat) b.successors),
    ("exceptional_preds", .list (fun n => .natural n.toNat) b.exceptionalPredecessors)]

/-- A body as JSON. -/
def Body.encode (b : Body) : Json :=
  .object [("units", .list Instruction.encode b.instructions),
    ("blocks", .list Block.encode b.blocks)]

/-- A field as JSON. -/
def Field.encode (f : Field) : Json :=
  .object [("name", .string f.name), ("type", .string f.ty),
    ("modifiers", .natural f.modifiers.toNat)]

/-- A method as JSON. -/
def Method.encode (m : Method) : Json :=
  .object [("name", .string m.name), ("params", .texts m.params),
    ("return_type", .string m.returnType), ("modifiers", .natural m.modifiers.toNat),
    ("exceptions", .texts m.exceptions), ("body", .option Body.encode m.body)]

/-- A class as JSON. -/
def Class.encode (c : Class) : Json :=
  .object [("name", .string c.name), ("super_class", encodeText c.superClass),
    ("interfaces", .texts c.interfaces), ("modifiers", .natural c.modifiers.toNat),
    ("application", .bool c.application), ("library", .bool c.library),
    ("java_library", .bool c.javaLibrary), ("phantom", .bool c.phantom),
    ("fields", .list Field.encode c.fields), ("methods", .list Method.encode c.methods)]

/-- A program as JSON. -/
def Program.encode (p : Program) : Json :=
  .object [("ir_format", .string p.dialect.name), ("classes", .list Class.encode p.classes)]

/-! ### Reading -/

/-- Reads a handle. -/
def InstructionId.decoder : Decoder InstructionId := uint32.map .mk

/-- Reads a constant. -/
def Constant.decoder : Decoder Constant := fun _ doc =>
  if ¬ doc.isReadable then .error .malformed
  else
    match doc with
    | .number (.integer i) =>
      if Int64.minValue.toInt ≤ i ∧ i ≤ Int64.maxValue.toInt then .ok (.integer (.ofInt i))
      else .ok (.real (.ofInt i))
    | .number (.real x) => .ok (.real x)
    | .string s => .ok (.text s)
    | _ => .error .wrongShape

/-- Reads a field reference. -/
def FieldRef.decoder : Decoder FieldRef :=
  (FieldRef.mk <$> required "name" string <*> required "declaring_class" string).decoder

/-- Reads a list of texts that may be absent. -/
def textsField (name : String) : Json.Record (List String) := defaulted name (list string) []

/-- Reads a word that is zero when absent. -/
def wordField (name : String) : Json.Record UInt32 := defaulted name uint32 0

/-- Reads a truth value with a default. -/
def flagField (name : String) (default : Bool) : Json.Record Bool := defaulted name bool default

/-- Reads a method reference. -/
def MethodRef.decoder : Decoder MethodRef :=
  (MethodRef.mk <$> required "declaring_class" string <*> required "name" string <*>
    textsField "params").decoder

section Layers

variable {α : Type}

/-- Reads a phi source, given a reader of its value. -/
def PhiSource.decoder (operand : Decoder α) : Decoder (PhiSource α) :=
  (PhiSource.mk <$> required "value" operand <*> required "unit" InstructionId.decoder).decoder

/-- Reads the record of an operand, given a reader of the operands inside. -/
def Slots.decoder (operand : Decoder α) : Decoder (Slots α) :=
  (Slots.mk <$> required "kind" string <*> defaulted "type" string "" <*> optional "name" string <*>
    optional "value" Constant.decoder <*> optional "param_index" uint32 <*>
    optional "field" FieldRef.decoder <*> optional "base" operand <*> optional "index" operand <*>
    optional "op1" operand <*> optional "op2" operand <*> optional "op" operand <*>
    optional "cast_type" string <*> optional "check_type" string <*>
    optional "base_type" string <*> optional "size" operand <*>
    defaulted "sizes" (list operand) [] <*> optional "method" MethodRef.decoder <*>
    defaulted "args" (list operand) [] <*> optional "bootstrap_method" MethodRef.decoder <*>
    defaulted "bootstrap_args" (list operand) [] <*>
    defaulted "phi_args" (list (PhiSource.decoder operand)) []).decoder

end Layers

/-- Reads an operand in which at most `height` records lie inside one another. -/
def Operand.decoderUpTo : Nat → Decoder Operand
  | 0 => fun _ doc => .error doc.entryRefusal
  | height + 1 => (Slots.decoder (Operand.decoderUpTo height)).map .of

/-- Reads an operand.  A record opens a bracket, so the depth of the document bounds the height. -/
def Operand.decoder : Decoder Operand := fun src doc => Operand.decoderUpTo (doc.depth + 1) src doc

/-- Reads an instruction. -/
def Instruction.decoder : Decoder Instruction :=
  (Instruction.mk <$> required "id" InstructionId.decoder <*> required "kind" string <*>
    optional "left" Operand.decoder <*> optional "right" Operand.decoder <*>
    optional "op" Operand.decoder <*> optional "condition" Operand.decoder <*>
    optional "invoke" Operand.decoder <*> optional "key" Operand.decoder <*>
    optional "target" InstructionId.decoder <*>
    defaulted "targets" (list InstructionId.decoder) [] <*>
    optional "default_target" InstructionId.decoder <*>
    defaulted "lookup_values" (list int32) [] <*> optional "low_index" int32 <*>
    optional "high_index" int32).decoder

/-- Reads a list of positions that may be absent. -/
def positionsField (name : String) : Json.Record (List UInt64) := defaulted name (list uint64) []

/-- Reads a block. -/
def Block.decoder : Decoder Block :=
  (Block.mk <$> required "units" (list InstructionId.decoder) <*> positionsField "succs" <*>
    positionsField "exceptional_preds").decoder

/-- Reads a body. -/
def Body.decoder : Decoder Body :=
  (Body.mk <$> required "units" (list Instruction.decoder) <*>
    required "blocks" (list Block.decoder)).decoder

/-- Reads a field. -/
def Field.decoder : Decoder Field :=
  (Field.mk <$> required "name" string <*> required "type" string <*>
    wordField "modifiers").decoder

/-- Reads a method. -/
def Method.decoder : Decoder Method :=
  (Method.mk <$> required "name" string <*> textsField "params" <*>
    required "return_type" string <*> wordField "modifiers" <*> textsField "exceptions" <*>
    optional "body" Body.decoder).decoder

/-- Reads a class. -/
def Class.decoder : Decoder Class :=
  (Class.mk <$> required "name" string <*> optional "super_class" string <*>
    textsField "interfaces" <*> wordField "modifiers" <*> flagField "application" true <*>
    flagField "library" false <*> flagField "java_library" false <*> flagField "phantom" false <*>
    defaulted "fields" (list Field.decoder) [] <*>
    defaulted "methods" (list Method.decoder) []).decoder

/-- Reads the name of a dialect. -/
def dialectDecoder : Decoder Dialect := string.andThen fun name =>
  match Dialect.ofName? name with
  | some d => .ok d
  | none => .error (.refused (Dialect.unsupportedMessage name))

/-- Reads a program. -/
def Program.decoder : Decoder Program :=
  (Program.mk <$> defaulted "ir_format" dialectDecoder .singleAssignment <*>
    defaulted "classes" (list Class.decoder) []).decoder

end BytecodeIR.Dump
