import BytecodeIR.Code.Opcode
/-!
The kinds of operands and instructions.

Kinds are names, and the tables below are closed: a name that is in none of them is not understood.
The name of an operand's kind may carry the name of a dialect, which says nothing and is removed
before the name is looked up.
-/

namespace BytecodeIR.Dump

open Code (Opcode InvokeKind)

/-- A kind of operand that is no expression. -/
inductive ValueKind where
  | localVariable | arrayRef | caughtException | instanceField | param | this | staticField
  | classConstant | doubleConstant | floatConstant | intConstant | longConstant | nullConstant
  | stringConstant
deriving DecidableEq

/-- A kind of expression. -/
inductive ExprKind where
  | binary (op : Opcode)
  | unary (op : Opcode)
  | condition (op : Opcode)
  | cast | length | newObject | newArray | newMultiArray | instanceOf | phi
  | invoke (kind : InvokeKind)
deriving DecidableEq

/-- A kind of instruction. -/
inductive InstructionKind where
  | assign | breakpoint | enterMonitor | exitMonitor | goto | identity | branch | invoke
  | lookupSwitch | giveBack | leave | tableSwitch | throw
deriving DecidableEq

/-- The kinds of operands that are no expressions, by name. -/
def ValueKind.table : List (String × ValueKind) :=
  [("Local", .localVariable), ("JArrayRef", .arrayRef), ("JCaughtExceptionRef", .caughtException),
    ("JInstanceFieldRef", .instanceField), ("ParameterRef", .param), ("ThisRef", .this),
    ("StaticFieldRef", .staticField), ("ClassConstant", .classConstant),
    ("DoubleConstant", .doubleConstant), ("FloatConstant", .floatConstant),
    ("IntConstant", .intConstant), ("LongConstant", .longConstant),
    ("NullConstant", .nullConstant), ("StringConstant", .stringConstant)]

/-- The kinds of expressions by name. -/
def ExprKind.table : List (String × ExprKind) :=
  [("JCastExpr", .cast), ("JLengthExpr", .length), ("JNewExpr", .newObject),
    ("JNewArrayExpr", .newArray), ("JNewMultiArrayExpr", .newMultiArray),
    ("JInstanceOfExpr", .instanceOf), ("SPhiExpr", .phi),
    ("JDynamicInvokeExpr", .invoke .dynamic), ("JInterfaceInvokeExpr", .invoke .interface),
    ("JSpecialInvokeExpr", .invoke .special), ("JStaticInvokeExpr", .invoke .static),
    ("JVirtualInvokeExpr", .invoke .virtual),
    ("JEqExpr", .condition .eq), ("JGeExpr", .condition .ge), ("JGtExpr", .condition .gt),
    ("JLeExpr", .condition .le), ("JLtExpr", .condition .lt), ("JNeExpr", .condition .ne),
    ("JNegExpr", .unary .neg),
    ("JAddExpr", .binary .add), ("JAndExpr", .binary .and), ("JCmpExpr", .binary .cmp),
    ("JCmpgExpr", .binary .cmpg), ("JCmplExpr", .binary .cmpl), ("JDivExpr", .binary .div),
    ("JMulExpr", .binary .mul), ("JOrExpr", .binary .or), ("JRemExpr", .binary .rem),
    ("JShlExpr", .binary .shl), ("JShrExpr", .binary .shr), ("JSubExpr", .binary .sub),
    ("JUshrExpr", .binary .ushr), ("JXorExpr", .binary .xor)]

/-- The kinds of instructions by name. -/
def InstructionKind.table : List (String × InstructionKind) :=
  [("JAssignStmt", .assign), ("JBreakpointStmt", .breakpoint),
    ("JEnterMonitorStmt", .enterMonitor), ("JExitMonitorStmt", .exitMonitor),
    ("JGotoStmt", .goto), ("JIdentityStmt", .identity), ("JIfStmt", .branch),
    ("JInvokeStmt", .invoke), ("JLookupSwitchStmt", .lookupSwitch), ("JReturnStmt", .giveBack),
    ("JReturnVoidStmt", .leave), ("JTableSwitchStmt", .tableSwitch), ("JThrowStmt", .throw)]

/-- The kind of operand with a name. -/
def ValueKind.ofName? (name : String) : Option ValueKind := table.lookup name

/-- The kind of expression with a name. -/
def ExprKind.ofName? (name : String) : Option ExprKind := table.lookup name

/-- The kind of instruction with a name. -/
def InstructionKind.ofName? (name : String) : Option InstructionKind := table.lookup name

/-! ### Names of dialects in names of kinds -/

/-- Removes a word wherever it stands, from left to right; `skip` more characters belong to the
occurrence that was found last. -/
def removeFrom (word : List Char) : Nat → List Char → List Char
  | _, [] => []
  | skip + 1, _ :: rest => removeFrom word skip rest
  | 0, c :: rest =>
    if word.isPrefixOf (c :: rest) then removeFrom word (word.length - 1) rest
    else c :: removeFrom word 0 rest

/-- A text without any occurrence of a word that is not empty. -/
def remove (word text : String) : String := String.ofList (removeFrom word.toList 0 text.toList)

/-- The name of a kind without the names of dialects in it. -/
def normalizeKind (kind : String) : String := remove "Shimple" (remove "Jimple" kind)

/-- Whether a name is that of an expression, known or not. -/
def isExprKind (kind : String) : Bool := "Expr".toList.isSuffixOf kind.toList

end BytecodeIR.Dump
