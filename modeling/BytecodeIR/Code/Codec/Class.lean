import BytecodeIR.Code.Class
import BytecodeIR.Code.Codec.Value
/-!
Statements, blocks, methods and classes as JSON.

All of them are objects with their members in a fixed order; what a statement does is an object that
begins with the name of the action.  In the relations over blocks the indices that are keys are
written as texts.
-/

namespace BytecodeIR.Code

open Json (Decoder)
open Json.Decoder
open Json.Record

/-! ### Writing -/

/-- An attribute as JSON. -/
def Attribute.encode (a : Attribute) : Json := .string a.name

/-- An entry of a switch as JSON. -/
def encodeCase (e : Int32 × Label) : Json := .array [.integer e.1.toInt, e.2.encode]

/-- The members of what a statement does. -/
def Action.members : Action → List (String × Json)
  | assign left right =>
    [("stmt", .string "assign"), ("left", left.encode), ("right", right.encode)]
  | identity left right =>
    [("stmt", .string "identity"), ("left", left.encode), ("right", right.encode)]
  | breakpoint => [("stmt", .string "breakpoint")]
  | enterMonitor object => [("stmt", .string "enter_monitor"), ("obj", object.encode)]
  | exitMonitor object => [("stmt", .string "exit_monitor"), ("obj", object.encode)]
  | goto target => [("stmt", .string "goto"), ("target", target.encode)]
  | branch condition target =>
    [("stmt", .string "if"), ("condition", condition.encode), ("target", target.encode)]
  | invoke call => ("stmt", .string "invoke") :: call.encodedMembers
  | giveBack value => [("stmt", .string "return"), ("value", value.encode)]
  | leave => [("stmt", .string "return_void")]
  | lookupSwitch key lookup default =>
    [("stmt", .string "lookup_switch"), ("key", key.encode), ("lookup", .list encodeCase lookup),
      ("default_target", default.encode)]
  | tableSwitch key low high targets lookup default =>
    [("stmt", .string "table_switch"), ("key", key.encode), ("low_index", .integer low.toInt),
      ("high_index", .integer high.toInt), ("targets", .list Label.encode targets),
      ("lookup", .list encodeCase lookup), ("default_target", default.encode)]
  | throw object => [("stmt", .string "throw"), ("obj", object.encode)]

/-- What a statement does, as JSON. -/
def Action.encode (a : Action) : Json := .object a.members

/-- A statement as JSON. -/
def Statement.encode (s : Statement) : Json :=
  .object [("label", s.label.encode), ("offset", .natural s.offset.toNat),
    ("kind", s.action.encode)]

/-- A block as JSON. -/
def Block.encode (b : Block) : Json :=
  .object [("label", b.label.encode), ("idx", b.index.encode),
    ("statements", .list Statement.encode b.statements)]

/-- A relation over blocks as JSON. -/
def encodeEdges (edges : EdgeMap) : Json :=
  .object (edges.entries.map fun e => (toString e.1.toNat, .list BlockIndex.encode e.2))

/-- A method as JSON. -/
def Method.encode (m : Method) : Json :=
  .object [("class_name", .string m.className), ("name", .string m.name),
    ("params", .texts m.params), ("return_type", .string m.returnType),
    ("attrs", .list Attribute.encode m.attributes), ("exceptions", .texts m.exceptions),
    ("blocks", .list Block.encode m.blocks), ("control_flow", encodeEdges m.successors),
    ("exceptional_predecessors", encodeEdges m.exceptionalPredecessors)]

/-- A field as JSON. -/
def Field.encode (f : Field) : Json :=
  .object [("name", .string f.name), ("attrs", .list Attribute.encode f.attributes),
    ("ty", .string f.ty)]

/-- A class as JSON. -/
def Class.encode (c : Class) : Json :=
  .object [("name", .string c.name), ("super_class", .string c.superClass),
    ("interfaces", .texts c.interfaces), ("attrs", .list Attribute.encode c.attributes),
    ("methods", .list Method.encode c.methods), ("fields", .list Field.encode c.fields)]

/-- Classes under their names as JSON. -/
def encodeClasses (classes : ClassMap) : Json :=
  .object (classes.entries.map fun e => (e.1, e.2.encode))

/-! ### Reading -/

/-- Reads an attribute by its name. -/
def Attribute.decoder : Decoder Attribute := named (Attribute.all.map fun a => (a.name, a))

/-- Reads the cases of a switch. -/
def casesDecoder : Decoder (List (Int32 × Label)) := list (pair int32 Label.decoder)

/-- The actions of statements by name. -/
def Action.variants : List (String × Decoder Action) :=
  let left := required "left" Value.decoder
  let right := required "right" Value.decoder
  let object := required "obj" Value.decoder
  let target := required "target" Label.decoder
  let key := required "key" Value.decoder
  let lookup := required "lookup" casesDecoder
  let default := required "default_target" Label.decoder
  [("assign", (Action.assign <$> left <*> right).decoder),
    ("identity", (Action.identity <$> left <*> right).decoder),
    ("breakpoint", bare .breakpoint),
    ("enter_monitor", (Action.enterMonitor <$> object).decoder),
    ("exit_monitor", (Action.exitMonitor <$> object).decoder),
    ("goto", (Action.goto <$> target).decoder),
    ("if", (Action.branch <$> required "condition" Value.decoder <*> target).decoder),
    ("invoke", (Invoke.decoder Value.decoder).map .invoke),
    ("return", (Action.giveBack <$> required "value" Value.decoder).decoder),
    ("return_void", bare .leave),
    ("lookup_switch", (Action.lookupSwitch <$> key <*> lookup <*> default).decoder),
    ("table_switch",
      (Action.tableSwitch <$> key <*> required "low_index" int32 <*> required "high_index" int32 <*>
        required "targets" (list Label.decoder) <*> lookup <*> default).decoder),
    ("throw", (Action.throw <$> object).decoder)]

/-- Reads what a statement does. -/
def Action.decoder : Decoder Action := tagged "stmt" Action.variants

/-- Reads a statement. -/
def Statement.decoder : Decoder Statement :=
  (Statement.mk <$> required "label" Label.decoder <*> required "offset" uint32 <*>
    required "kind" Action.decoder).decoder

/-- Reads a block. -/
def Block.decoder : Decoder Block :=
  (Block.mk <$> required "label" Label.decoder <*> required "idx" BlockIndex.decoder <*>
    required "statements" (list Statement.decoder)).decoder

/-- Reads a relation over blocks. -/
def edgesDecoder : Decoder EdgeMap :=
  (entries uint32Key (list BlockIndex.decoder)).map fun es =>
    .ofList (es.map fun e => (⟨e.1⟩, e.2))

/-- Reads a method. -/
def Method.decoder : Decoder Method :=
  (Method.mk <$> required "class_name" string <*> required "name" string <*>
    required "params" (list string) <*> required "return_type" string <*>
    required "attrs" (list Attribute.decoder) <*> required "exceptions" (list string) <*>
    required "blocks" (list Block.decoder) <*> required "control_flow" edgesDecoder <*>
    required "exceptional_predecessors" edgesDecoder).decoder

/-- Reads a field. -/
def Field.decoder : Decoder Field :=
  (Field.mk <$> required "name" string <*> required "attrs" (list Attribute.decoder) <*>
    required "ty" string).decoder

/-- Reads a class. -/
def Class.decoder : Decoder Class :=
  (Class.mk <$> required "name" string <*> required "super_class" string <*>
    required "interfaces" (list string) <*> required "attrs" (list Attribute.decoder) <*>
    required "methods" (list Method.decoder) <*> required "fields" (list Field.decoder)).decoder

/-- Reads classes under their names. -/
def classesDecoder : Decoder ClassMap := (entries textKey Class.decoder).map .ofList

end BytecodeIR.Code
