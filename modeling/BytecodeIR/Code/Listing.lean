import BytecodeIR.Code.Class
import BytecodeIR.Decimal.Layout
import BytecodeIR.Text.Line
import BytecodeIR.Text.Quoted
/-!
The text of code.

Values, statements, blocks, methods and classes have a text of their own, and the text of the larger
holds the lines of the smaller, one tab further in.  Lines that begin with two slashes only count
and name what follows; `stripComments` takes them out.  Constants are written so that no string
constant can break a line.
-/

namespace BytecodeIR.Code

/-- Texts with a comma between two of them. -/
def commaSeparated (texts : List String) : String := ", ".intercalate texts

/-! ### Values -/

/-- A field with the class that declares it. -/
def FieldRef.text (f : FieldRef) : String := "<" ++ f.className ++ ": " ++ f.name ++ ">"

/-- A method with its class and the types of its parameters. -/
def MethodRef.text (m : MethodRef) : String :=
  m.className ++ "." ++ m.name ++ "(" ++ commaSeparated m.params ++ ")"

/-- A call: receiver, name and arguments, and in brackets the method that is called. -/
def Invoke.text (c : Invoke String) : String :=
  let receiver := match c.base with
    | none => ""
    | some base => base ++ "."
  let link := match c.bootstrap with
    | none => ""
    | some b => " bootstrap " ++ b.method.text ++ "(" ++ commaSeparated b.args ++ ")"
  receiver ++ c.target.name ++ "(" ++ commaSeparated c.args ++ ") [" ++ c.kind.instruction ++ " " ++
    c.target.text ++ link ++ "]"

/-- The type of the elements of an array type: the type without its brackets. -/
def elementType (ty : String) : String :=
  String.ofList (ty.toList.filter fun c => c ≠ '[' ∧ c ≠ ']')

/-- An expression, given the texts of its operands. -/
def Expr.text : Expr String → String
  | .binary _ op left right => left ++ " " ++ op.symbol ++ " " ++ right
  | .unary _ op value => op.symbol ++ " " ++ value
  | .cast _ castType value => "((" ++ castType ++ ") " ++ value ++ ")"
  | .condition _ op left right => left ++ " " ++ op.symbol ++ " " ++ right
  | .length _ value => "len(" ++ value ++ ")"
  | .newObject _ baseType => "new " ++ baseType
  | .newArray _ baseType size => "new " ++ baseType ++ "[" ++ size ++ "]"
  | .newMultiArray _ baseType sizes =>
    "new " ++ elementType baseType ++ String.join (sizes.map fun size => "[" ++ size ++ "]")
  | .phi _ args =>
    "Phi(" ++ commaSeparated (args.map fun a => a.value ++ " " ++ a.block.text) ++ ")"
  | .instanceOf _ checkType value => value ++ " instanceof " ++ checkType
  | .invoke call => call.text

/-- A node, given the texts of its operands. -/
def Node.text : Node String → String
  | .localVariable _ name => name
  | .arrayRef _ base index => base ++ "[" ++ index ++ "]"
  | .caughtException ty => "Caught(" ++ ty ++ ")"
  | .param ty index => "@parameter" ++ toString index.toNat ++ "[" ++ ty ++ "]"
  | .this ty => "@this[" ++ ty ++ "]"
  | .staticField _ field => "StaticFieldRef " ++ field.text
  | .instanceField _ base field => base ++ "." ++ field.text
  | .classConstant _ value => value
  | .doubleConstant _ value => value.text .listing ++ "d"
  | .floatConstant _ value => value.singleText .listing ++ "f"
  | .intConstant _ value => toString value.toInt
  | .longConstant _ value => toString value.toInt ++ "L"
  | .nullConstant _ => "null"
  | .stringConstant _ value => Text.quoted value
  | .expr e => e.text

/-- The text of a value. -/
def Value.text (v : Value) : String := v.fold Node.text

/-- The text of an expression. -/
def Expr.listing (e : Expr Value) : String := (e.map Value.text).text

/-- The text of a call. -/
def Invoke.listing (c : Invoke Value) : String := (c.map Value.text).text

/-! ### Statements -/

/-- The entries of a switch. -/
def lookupText (lookup : List (Int32 × Label)) : String :=
  "\x7b" ++ commaSeparated (lookup.map fun e => toString e.1.toInt ++ ": " ++ e.2.text) ++ "\x7d"

/-- The text of what a statement does. -/
def Action.text : Action → String
  | assign left right => left.text ++ " = " ++ right.text
  | identity left right => left.text ++ " <- " ++ right.text
  | breakpoint => "breakpoint"
  | enterMonitor object => "EnterMonitor(" ++ object.text ++ ")"
  | exitMonitor object => "ExitMonitor(" ++ object.text ++ ")"
  | goto target => "goto " ++ target.text
  | branch condition target => "if(" ++ condition.text ++ ") goto " ++ target.text
  | invoke call => call.listing
  | giveBack value => "return " ++ value.text
  | leave => "return"
  | lookupSwitch key lookup default =>
    "switch_table(" ++ key.text ++ ") " ++ lookupText lookup ++ " default: " ++ default.text
  | tableSwitch key low high _ lookup default =>
    "switch_range(" ++ key.text ++ ")[" ++ toString low.toInt ++ ".." ++ toString high.toInt ++
      "] " ++ lookupText lookup ++ " default: " ++ default.text
  | throw object => "Throw(" ++ object.text ++ ")"

/-- The text of a statement. -/
def Statement.text (s : Statement) : String := s.action.text

/-! ### Blocks, methods and classes -/

/-- Every line of a text one tab further in. -/
def indented (text : String) : String :=
  String.join ((Text.lines text).map fun line => "\t" ++ line ++ "\n")

/-- The listing of a block. -/
def Block.listing (b : Block) : String :=
  "//<Block " ++ toString b.index.toNat ++ " [" ++ b.label.text ++ "], " ++ toString b.size ++
    " statements>\n" ++
    String.join (b.statements.map fun s => s.label.text ++ ": " ++ s.text ++ "\n")

/-- Attributes in front of a declaration. -/
def declarationStart (attributes : List Attribute) : String :=
  if attributes.isEmpty then "" else Attribute.render attributes ++ " "

/-- A clause of a declaration, left out if it has no item. -/
def clause (word : String) (items : List String) : String :=
  if items.isEmpty then "" else " " ++ word ++ " " ++ commaSeparated items

/-- The line that declares a method. -/
def Method.header (m : Method) : String :=
  declarationStart m.attributes ++ m.returnType ++ " " ++ m.name ++ "(" ++
    commaSeparated m.params ++ ")" ++ clause "throws" m.exceptions ++ "\x7b\n"

/-- The listing of a method. -/
def Method.listing (m : Method) : String :=
  "//<Method " ++ m.fullName ++ ", " ++ toString m.blocks.length ++ " blocks>\n" ++ m.header ++
    String.join (m.blocks.map fun b => indented b.listing) ++ "\x7d\n"

/-- The line that declares a field. -/
def Field.listing (f : Field) : String :=
  "\t" ++ declarationStart f.attributes ++ f.ty ++ " " ++ f.name ++ "\n"

/-- The line that declares a class. -/
def Class.header (c : Class) : String :=
  declarationStart c.attributes ++ "class " ++ c.name ++
    (if c.superClass.isEmpty then "" else " extends " ++ c.superClass) ++
    clause "implements" c.interfaces ++ "\x7b\n"

/-- The listing of a class. -/
def Class.listing (c : Class) : String :=
  "//<Class " ++ c.name ++ ", " ++ toString c.methods.length ++ " methods>\n" ++ c.header ++
    String.join (c.fields.map Field.listing) ++ "\n" ++
    String.join (c.methods.map fun m => indented m.listing) ++ "\x7d\n"

/-- Whether a line is a comment. -/
def isComment (line : String) : Bool := "//".toList.isPrefixOf (Text.trimStart line).toList

/-- The lines of a listing that are no comments. -/
def stripComments (text : String) : String :=
  "\n".intercalate ((Text.lines text).filter fun line => !isComment line)

end BytecodeIR.Code
