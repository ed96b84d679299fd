import BytecodeIR.Code.Attribute
import BytecodeIR.Code.Index
import BytecodeIR.Dump.Operand
/-!
Why a dump cannot be converted.
-/

namespace BytecodeIR.Conversion

/-- Why a dump cannot be converted. -/
inductive Failure where
  | unsupportedValue (kind : String)
  | unsupportedExpr (kind : String)
  | unsupportedStatement (kind : String)
  | unknownModifier (bits : UInt32)
  | missingOperand (kind operand : String)
  | unexpectedOperand (kind expected : String)
  | unknownInstruction (id : Dump.InstructionId)
  | duplicateInstruction (id : Dump.InstructionId)
  | unknownBlock (block count : Nat)
  | emptyBlock (block : Nat)
  | misplacedPhi
  | unwantedPhi (label : Code.Label)
  | unresolvedSource (label : Code.Label) (origin : Dump.InstructionId)
  | missingSuperClass (name : String)
deriving DecidableEq

/-- The wording of a failure. -/
def Failure.message : Failure → String
  | unsupportedValue kind => "Unsupported value type " ++ kind
  | unsupportedExpr kind => "Unsupported expression type " ++ kind
  | unsupportedStatement kind => "Statement type " ++ kind ++ " is not supported"
  | unknownModifier bits =>
    "Unrecognized modifier bits 0x" ++ String.ofList (Nat.toDigits 16 bits.toNat)
  | missingOperand kind operand => kind ++ " is missing its " ++ operand ++ " operand"
  | unexpectedOperand kind expected => kind ++ " expected " ++ expected ++ " operand"
  | unknownInstruction id =>
    "Unit " ++ id.text ++ " is referenced but is not part of the method body"
  | duplicateInstruction id =>
    "Unit " ++ id.text ++ " appears more than once in the method body"
  | unknownBlock block count =>
    "Block " ++ toString block ++ " does not exist (method has " ++ toString count ++ " blocks)"
  | emptyBlock block => "Block " ++ toString block ++ " has no units"
  | misplacedPhi => "Phi expression outside of an assignment right-hand side"
  | unwantedPhi label => "Phi expression at label " ++ label.text ++ " in a non-SSA dialect"
  | unresolvedSource label origin =>
    "Phi argument at label " ++ label.text ++ " comes from unit " ++ origin.text ++
      ", which belongs to no block"
  | missingSuperClass name => "Class " ++ name ++ " has no superclass"

/-- What stands in a slot that has to be filled. -/
def require {α : Type} (kind operand : String) : Option α → Except Failure α
  | some a => .ok a
  | none => .error (.missingOperand kind operand)

/-- The attributes that a modifier word denotes. -/
def attributes (word : UInt32) : Except Failure (List Code.Attribute) :=
  let unknown := Code.Attribute.unknownBits word
  if unknown = 0 then .ok (Code.Attribute.ofWord word) else .error (.unknownModifier unknown)

end BytecodeIR.Conversion
