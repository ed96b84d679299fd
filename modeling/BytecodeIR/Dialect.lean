import BytecodeIR.Text.Quoted
/-!
The two dialects that code comes in.

In the plain dialect a variable may be written in several places.  In the other one every variable
is written once, and where control flows together a phi selects the value by the block that control
came from.
-/

namespace BytecodeIR

/-- A dialect of the code. -/
inductive Dialect where
  /-- Every variable is written once, with phis where control flows together. -/
  | singleAssignment
  /-- Variables are written freely, and there are no phis. -/
  | plain
deriving DecidableEq, Inhabited

namespace Dialect

/-- Both dialects. -/
def all : List Dialect := [singleAssignment, plain]

/-- The name of a dialect. -/
def name : Dialect → String
  | singleAssignment => "shimple"
  | plain => "jimple"

/-- Whether phis belong to the dialect. -/
def hasPhis (d : Dialect) : Bool := d == singleAssignment

/-- The dialect with a name. -/
def ofName? (name : String) : Option Dialect := all.find? fun d => d.name == name

end Dialect

/-- What is said of a name that is none of the allowed values of a setting. -/
def unsupportedMessage (setting : String) (allowed : List String) (name : String) : String :=
  setting ++ " needs to be in " ++ Text.bracketed (allowed.map Text.quoted) ++ ", got " ++
    Text.quoted name

/-- What is said of a name that is no dialect's. -/
def Dialect.unsupportedMessage (name : String) : String :=
  BytecodeIR.unsupportedMessage "ir_format" (all.map Dialect.name) name

end BytecodeIR
