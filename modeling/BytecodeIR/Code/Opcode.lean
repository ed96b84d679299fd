/-!
Operators of expressions and kinds of calls.
-/

namespace BytecodeIR.Code

/-- An operator. -/
inductive Opcode where
  | eq | ge | gt | le | lt | ne
  | neg
  | add | and | cmp | cmpg | cmpl | div | mul | or | rem | shl | shr | sub | ushr | xor
deriving DecidableEq, Inhabited

namespace Opcode

/-- Every operator, comparisons first, then negation, then the others by name. -/
def all : List Opcode :=
  [eq, ge, gt, le, lt, ne, neg, add, and, cmp, cmpg, cmpl, div, mul, or, rem, shl, shr, sub, ushr,
    xor]

/-- The name of an operator. -/
def name : Opcode → String
  | eq => "eq"
  | ge => "ge"
  | gt => "gt"
  | le => "le"
  | lt => "lt"
  | ne => "ne"
  | neg => "neg"
  | add => "add"
  | and => "and"
  | cmp => "cmp"
  | cmpg => "cmpg"
  | cmpl => "cmpl"
  | div => "div"
  | mul => "mul"
  | or => "or"
  | rem => "rem"
  | shl => "shl"
  | shr => "shr"
  | sub => "sub"
  | ushr => "ushr"
  | xor => "xor"

/-- How listings write an operator. -/
def symbol : Opcode → String
  | eq => "=="
  | ge => ">="
  | gt => ">"
  | le => "<="
  | lt => "<"
  | ne => "!="
  | neg => "-"
  | add => "+"
  | and => "&"
  | cmp => "cmp"
  | cmpg => "cmpg"
  | cmpl => "cmpl"
  | div => "/"
  | mul => "*"
  | or => "|"
  | rem => "%"
  | shl => "<<"
  | shr => ">>"
  | sub => "-"
  | ushr => ">>>"
  | xor => "^"

/-- Whether the operator compares and so decides a branch. -/
def isCondition : Opcode → Bool
  | eq => true
  | ge => true
  | gt => true
  | le => true
  | lt => true
  | ne => true
  | _ => false

/-- Whether the operator has a single operand. -/
def isUnary (op : Opcode) : Bool := op == neg

end Opcode

/-- How the method that a call runs is found. -/
inductive InvokeKind where
  | virtual | interface | special | static | dynamic
deriving DecidableEq, Inhabited

namespace InvokeKind

/-- Every kind of call. -/
def all : List InvokeKind := [virtual, interface, special, static, dynamic]

/-- The name of a kind of call. -/
def name : InvokeKind → String
  | virtual => "virtual"
  | interface => "interface"
  | special => "special"
  | static => "static"
  | dynamic => "dynamic"

/-- How listings write a kind of call. -/
def instruction (k : InvokeKind) : String := k.name ++ "invoke"

/-- Whether a call of this kind has to have a receiver. -/
def needsReceiver : InvokeKind → Bool
  | virtual => true
  | interface => true
  | special => true
  | static => false
  | dynamic => false

end InvokeKind

end BytecodeIR.Code
