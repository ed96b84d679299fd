import BytecodeIR.Code.Attribute
import BytecodeIR.Code.Statement
/-!
Methods and the blocks of their bodies.

A block is a run of statements that is entered at its first one.  A method holds its blocks in a
list and two relations over them by index: where control goes normally, and from where it comes
through an exception handler only.  Nothing here keeps a method consistent; `Code.Check` says what a
consistent method is.
-/

namespace BytecodeIR.Code

/-- A block of statements. -/
structure Block where
  /-- The label of the first statement. -/
  label : Label
  /-- The position of the block in its method. -/
  index : BlockIndex
  statements : List Statement
deriving DecidableEq

namespace Block

/-- The block of given statements; there is none without a first statement. -/
def ofStatements? (index : BlockIndex) : List Statement → Option Block
  | [] => none
  | head :: rest => some ⟨head.label, index, head :: rest⟩

/-- The first statement. -/
def head? (b : Block) : Option Statement := b.statements.head?

/-- The last statement. -/
def tail? (b : Block) : Option Statement := b.statements.getLast?

/-- How many statements the block has. -/
def size (b : Block) : Nat := b.statements.length

/-- The statement with a label. -/
def statement? (b : Block) (label : Label) : Option Statement :=
  b.statements.find? fun s => s.label == label

end Block

/-- A method. -/
structure Method where
  /-- The class that declares the method. -/
  className : String
  name : String
  /-- The types of the parameters. -/
  params : List String
  returnType : String
  attributes : List Attribute
  /-- The types of the declared exceptions. -/
  exceptions : List String
  /-- The blocks of the body; a method without a body has none. -/
  blocks : List Block
  /-- Where control goes from a block normally. -/
  successors : EdgeMap
  /-- From where control comes to a block through an exception handler only. -/
  exceptionalPredecessors : EdgeMap
deriving DecidableEq

namespace Method

/-- A method without a body. -/
def withoutBody (className name : String) (params : List String) (returnType : String)
    (attributes : List Attribute) (exceptions : List String) : Method :=
  ⟨className, name, params, returnType, attributes, exceptions, [], ∅, ∅⟩

/-- The name together with the class. -/
def fullName (m : Method) : String := m.className ++ "." ++ m.name

/-- Whether the method has a body. -/
def hasBody (m : Method) : Bool := !m.blocks.isEmpty

/-- The block at an index. -/
def block? (m : Method) (index : BlockIndex) : Option Block := m.blocks[index.toNat]?

/-- The first block with a label. -/
def blockLabeled? (m : Method) (label : Label) : Option Block :=
  m.blocks.find? fun b => b.label == label

/-- Where control goes from a block normally. -/
def successorsOf (m : Method) (index : BlockIndex) : List BlockIndex :=
  (m.successors.get? index).getD []

/-- From where control comes to a block through an exception handler only. -/
def exceptionalPredecessorsOf (m : Method) (index : BlockIndex) : List BlockIndex :=
  (m.exceptionalPredecessors.get? index).getD []

/-- Every statement, in the order of the blocks. -/
def statements (m : Method) : List Statement := m.blocks.flatMap (·.statements)

/-- How many statements the method has. -/
def size (m : Method) : Nat := m.statements.length

end Method

end BytecodeIR.Code
