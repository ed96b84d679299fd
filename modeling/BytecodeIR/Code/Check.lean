import BytecodeIR.Code.Class
/-!
Whether code is consistent.

A method is consistent if its blocks stand where their indices say, begin with the statement that
they are labelled by and can be found by that label, if no label is used twice, if the two relations
over the blocks have no empty entry and stay within the method, and if every branch goes to a
statement and every phi source comes from a block of the method.  The check reports the first
violation in a fixed order: block by block, then the relations, then statement by statement.
-/

namespace BytecodeIR.Code

/-- A violation of consistency. -/
inductive Flaw where
  | misplacedBlock (position : Nat) (index : BlockIndex)
  | emptyBlock (index : BlockIndex)
  | foreignHead (index : BlockIndex) (label head : Label)
  | ambiguousBlock (label : Label) (index : BlockIndex)
  | repeatedLabel (label : Label)
  | emptyEntry (relation : String) (index : BlockIndex)
  | danglingEdge (relation : String) (source index : BlockIndex) (count : Nat)
  | danglingBranch (label target : Label)
  | danglingSource (label : Label) (index : BlockIndex) (count : Nat)
deriving DecidableEq

/-- The wording of a violation. -/
def Flaw.message : Flaw → String
  | misplacedBlock position index =>
    "Block at position " ++ toString position ++ " has index " ++ index.text
  | emptyBlock index => "Block " ++ index.text ++ " has no statements"
  | foreignHead index label head =>
    "Block " ++ index.text ++ " is labeled " ++ label.text ++ " but starts with statement " ++
      head.text
  | ambiguousBlock label index =>
    "Label " ++ label.text ++ " does not identify block " ++ index.text
  | repeatedLabel label => "Label " ++ label.text ++ " is used twice"
  | emptyEntry relation index =>
    "Block " ++ index.text ++ " has an empty " ++ relation ++ " entry"
  | danglingEdge relation source index count =>
    relation ++ " edge of block " ++ source.text ++ " references block " ++ index.text ++
      " (method has " ++ toString count ++ " blocks)"
  | danglingBranch label target =>
    "Statement " ++ label.text ++ " branches to unknown label " ++ target.text
  | danglingSource label index count =>
    "Phi at label " ++ label.text ++ " references block " ++ index.text ++ " (method has " ++
      toString count ++ " blocks)"

namespace Method

/-- Adds the labels of statements to those in use, none of which may come again. -/
def checkLabels : List Label → List Statement → Except Flaw (List Label)
  | used, [] => .ok used
  | used, s :: rest =>
    if s.label ∈ used then .error (.repeatedLabel s.label)
    else checkLabels (s.label :: used) rest

/-- Checks one block, and adds its labels to those in use. -/
def checkBlock (m : Method) (used : List Label) (position : Nat) (b : Block) :
    Except Flaw (List Label) :=
  if b.index.toNat ≠ position then .error (.misplacedBlock position b.index)
  else
    match b.head? with
    | none => .error (.emptyBlock b.index)
    | some head =>
      if head.label ≠ b.label then .error (.foreignHead b.index b.label head.label)
      else if (m.blockLabeled? b.label).map (·.index) ≠ some b.index then
        .error (.ambiguousBlock b.label b.index)
      else checkLabels used b.statements

/-- Checks the blocks from a position on, and collects the labels in use. -/
def checkBlocks (m : Method) : List Label → Nat → List Block → Except Flaw (List Label)
  | used, _, [] => .ok used
  | used, position, b :: rest => do
    let used ← m.checkBlock used position b
    m.checkBlocks used (position + 1) rest

/-- Checks one entry of a relation over the blocks of a method of `count` blocks. -/
def checkEntry (relation : String) (count : Nat) (source : BlockIndex) (ends : List BlockIndex) :
    Except Flaw Unit :=
  if ends.isEmpty then .error (.emptyEntry relation source)
  else
    match (source :: ends).find? fun index => decide (count ≤ index.toNat) with
    | some index => .error (.danglingEdge relation source index count)
    | none => .ok ()

/-- Checks a relation over the blocks of a method of `count` blocks. -/
def checkEdges (relation : String) (count : Nat) (edges : EdgeMap) : Except Flaw Unit :=
  edges.entries.forM fun e => checkEntry relation count e.1 e.2

/-- Checks where a statement refers to, given the labels of the method. -/
def checkReferences (labels : List Label) (count : Nat) (s : Statement) : Except Flaw Unit :=
  match s.targets.find? fun target => decide (target ∉ labels) with
  | some target => .error (.danglingBranch s.label target)
  | none =>
    match (s.action.phiArgs?.getD []).find? fun a => decide (count ≤ a.block.toNat) with
    | some a => .error (.danglingSource s.label a.block count)
    | none => .ok ()

/-- Checks a method. -/
def check (m : Method) : Except Flaw Unit := do
  let labels ← m.checkBlocks [] 0 m.blocks
  checkEdges "control flow" m.blocks.length m.successors
  checkEdges "exceptional predecessor" m.blocks.length m.exceptionalPredecessors
  m.statements.forM (checkReferences labels m.blocks.length)

end Method

/-- The first violation in a class, with the method that it is found in. -/
def Class.flaw? (c : Class) : Option (Method × Flaw) :=
  c.methods.findSome? fun m =>
    match m.check with
    | .ok () => none
    | .error flaw => some (m, flaw)

/-- The wording of the first violation in a class. -/
def Class.flawMessage? (c : Class) : Option String :=
  c.flaw?.map fun (m, flaw) => m.fullName ++ ": " ++ flaw.message

/-- The wording of the first violation in a method. -/
def Method.flawMessage? (m : Method) : Option String :=
  match m.check with
  | .ok () => none
  | .error flaw => some flaw.message

end BytecodeIR.Code
