import BytecodeIR.Code.Equality
/-!
Statements.

A statement does one thing to values that are already computed, and says by label where control may
go next.  Control passes to the next statement of the block unless the statement ends it.
-/

namespace BytecodeIR.Code

/-- What a statement does. -/
inductive Action where
  | assign (left right : Value)
  /-- Binds a parameter, the receiver or a caught exception to a local variable. -/
  | identity (left right : Value)
  | breakpoint
  | enterMonitor (object : Value)
  | exitMonitor (object : Value)
  | goto (target : Label)
  | branch (condition : Value) (target : Label)
  | invoke (call : Invoke Value)
  | giveBack (value : Value)
  | leave
  /-- Selects by value: the first entry with the key's value counts. -/
  | lookupSwitch (key : Value) (lookup : List (Int32 × Label)) (default : Label)
  /-- Selects by position between two bounds. -/
  | tableSwitch (key : Value) (low high : Int32) (targets : List Label)
      (lookup : List (Int32 × Label)) (default : Label)
  | throw (object : Value)
deriving DecidableEq

/-- A statement of a method. -/
structure Statement where
  label : Label
  /-- The place in the bytecode, zero where it is not known. -/
  offset : UInt32
  action : Action
deriving DecidableEq

namespace Action

/-- The labels that control may go to, in the order in which they are written. -/
def targets : Action → List Label
  | goto target => [target]
  | branch _ target => [target]
  | lookupSwitch _ lookup default => lookup.map (·.2) ++ [default]
  | tableSwitch _ _ _ targets lookup default => targets ++ lookup.map (·.2) ++ [default]
  | _ => []

/-- Whether the statement writes its left-hand side. -/
def isDefinition : Action → Bool
  | assign _ _ => true
  | identity _ _ => true
  | _ => false

/-- Whether control never passes on to the next statement. -/
def isTerminator : Action → Bool
  | goto _ => true
  | giveBack _ => true
  | leave => true
  | lookupSwitch _ _ _ => true
  | tableSwitch _ _ _ _ _ _ => true
  | throw _ => true
  | _ => false

/-- The sources of the phi that is assigned, if one is. -/
def phiArgs? : Action → Option (List (PhiArg Value))
  | assign _ (.of (.expr (.phi _ args))) => some args
  | _ => none

/-- Replaces the sources of the phi that is assigned, if one is. -/
def withPhiArgs (args : List (PhiArg Value)) : Action → Action
  | assign left (.of (.expr (.phi ty _))) => assign left (.ofExpr (.phi ty args))
  | action => action

end Action

namespace Statement

/-- A statement whose place in the bytecode is not known. -/
def ofAction (label : Label) (action : Action) : Statement := ⟨label, 0, action⟩

/-- The labels that control may go to. -/
def targets (s : Statement) : List Label := s.action.targets

/-- Whether the statement assigns a phi. -/
def isPhi (s : Statement) : Bool := s.action.phiArgs?.isSome

/-- Replaces the sources of the phi that is assigned, if one is. -/
def withPhiArgs (s : Statement) (args : List (PhiArg Value)) : Statement :=
  { s with action := s.action.withPhiArgs args }

end Statement

end BytecodeIR.Code
