/-
A conversion reads the slots that kinds use and no others.

What stands in a slot that the kind of its record does not use may be anything, an
operand of no known kind included: emptying all of these slots, in a whole method and at
every depth of its operands, changes neither the code that comes out nor the failure.

For one record this is a matter of its kind, case by case: the rule is given the record
with the slots that the table names for this kind, and nothing is missing.  Clearing does
not look at operands, so the fold carries this from records to operands of any depth.
A phi is the one operand that is used without being converted, and clearing leaves it a
phi with as many sources, each with its value cleared and from where it came.
-/
import BytecodeIR.Conversion.Class
import BytecodeIR.Proofs.Conversion.Body
import BytecodeIR.Proofs.Dump.Clearing

namespace BytecodeIR.Conversion

open Code (InvokeKind Label)
open Dump (Body ExprKind Instruction InstructionId InstructionKind Operand PhiSource Slots
  ValueKind)

/-! ### One record

A rule that is given a record with only the slots of its kind finds what it looks for;
this is seen case by case, the two sides being the same chain of steps.  Whether a kind
is known is decided before any slot is looked at.
-/

section Record

variable (s : Slots Outcome)

theorem call_keep (kind : InvokeKind) :
    call (s.keep (Dump.callUses s.bootstrapMethod.isSome kind)) kind = call s kind := by
  cases kind with
  | dynamic =>
      obtain ⟨⟩ := s
      rename_i bootstrapMethod _ _
      cases bootstrapMethod with
      | none => rfl
      | some m => rfl
  | _ => rfl

theorem expr_keep (k : ExprKind) :
    expr (s.keep (k.uses s.bootstrapMethod.isSome)) k = expr s k := by
  cases k with
  | invoke kind => exact congrArg (· >>= _) (call_keep s kind)
  | _ => rfl

theorem node_keep (k : ValueKind) : node (s.keep k.uses) k = node s k := by
  cases k with
  | _ => rfl

/-- **The value of a record is made of the slots that it uses.** -/
theorem value_clear : value s.clear = value s := by
  have hkind : s.clear.kind = s.kind := Slots.kind_keep _ s
  unfold value
  simp only [hkind]
  cases hexpr : ExprKind.ofName? (Dump.normalizeKind s.kind) with
  | some k =>
      have hclear : s.clear = s.keep (k.uses s.bootstrapMethod.isSome) := by
        simp only [Slots.clear, Slots.used, hexpr]
      rw [hclear]
      simp only [expr_keep, Dump.isExprKind_of_exprKind hexpr, if_true]
  | none =>
      cases hvalue : ValueKind.ofName? (Dump.normalizeKind s.kind) with
      | some k =>
          have hclear : s.clear = s.keep k.uses := by
            simp only [Slots.clear, Slots.used, hexpr, hvalue]
          rw [hclear]
          simp only [node_keep, Dump.isExprKind_of_valueKind hvalue]
      | none => rfl

end Record

/-! ### Operands

Clearing an operand clears the record at its root and all records below.  As both
clearing and conversion are folds, the law for one record is enough.
-/

/-- **An operand is converted alike whatever stands in the slots that are not used.** -/
theorem convert_clear_operand (o : Operand) : o.clear.convert = o.convert := by
  have hrule : ∀ s : Slots Operand,
      (Operand.of s.clear).convert = value (s.map Operand.convert) := by
    intro s
    rw [convert_of, Slots.clear_map, value_clear]
  exact Operand.fold_hom hrule o

theorem exprKind?_clear (o : Operand) : o.clear.exprKind? = o.exprKind? := by
  unfold Operand.exprKind? Operand.kind
  rw [Operand.slots_clear, Slots.clear, Slots.kind_keep]
  rfl

theorem isPhi_clear (o : Operand) : o.clear.isPhi = o.isPhi := by
  unfold Operand.isPhi
  rw [exprKind?_clear]

/-- What is left of the record of an expression of a kind. -/
theorem slots_clear_of_exprKind {o : Operand} {k : ExprKind} (h : o.exprKind? = some k) :
    o.clear.slots = (o.slots.map Operand.clear).keep (k.uses o.slots.bootstrapMethod.isSome) := by
  have hkind : ExprKind.ofName? (Dump.normalizeKind o.slots.kind) = some k := h
  rw [Operand.slots_clear, Slots.clear, Slots.used_map]
  simp only [Slots.used, hkind]

theorem convertCall_clear {o : Operand} {kind : InvokeKind}
    (h : o.exprKind? = some (.invoke kind)) : o.clear.convertCall kind = o.convertCall kind := by
  unfold Operand.convertCall
  rw [slots_clear_of_exprKind h, Slots.keep_map, Slots.map_map]
  simp only [convert_clear_operand]
  exact call_keep (o.slots.map Operand.convert) kind

/-- A phi keeps its sources, their values being cleared. -/
theorem phiSources_clear {o : Operand} (h : o.isPhi = true) :
    o.clear.slots.phiSources = o.slots.phiSources.map (·.map Operand.clear) := by
  rw [slots_clear_of_exprKind (beq_iff_eq.mp h)]
  rfl

/-! ### Instructions

An instruction has a table of slots as well.  A call is the one operand that is not
converted as an operand; but its kind is that of an expression, and clearing keeps the
slots of such a kind.
-/

section Instruction

variable (b : Body) (i : Instruction) (dialect : Dialect) (here : Label)

/-- A step for an operand that has to be there. -/
theorem bind_require_clear {α : Type} {kind name : String} (slot : Option Operand)
    {k' k : Operand → Except Failure α} (hk : ∀ o, k' o.clear = k o) :
    require kind name (slot.map Operand.clear) >>= k' = require kind name slot >>= k := by
  cases slot with
  | none => rfl
  | some o => exact hk o

theorem slotValue_clear (name : String) (slot : Option Operand) :
    slotValue (i.mapOperands Operand.clear) name (slot.map Operand.clear) =
      slotValue i name slot :=
  bind_require_clear slot convert_clear_operand

theorem assigned_clear (o : Operand) : assigned dialect here o.clear = assigned dialect here o := by
  have hty : o.clear.slots.ty = o.slots.ty := by
    rw [Operand.slots_clear, Slots.clear, Slots.ty_keep]
    rfl
  unfold assigned
  rw [isPhi_clear, convert_clear_operand, hty]

/-- **A kind of instruction does what it does with the slots that it uses.** -/
theorem action_keep (kind : InstructionKind) :
    action b (i.keep kind.uses) dialect here kind = action b i dialect here kind := by
  cases kind with
  | _ => simp [action, slotValue, target, defaultTarget, Instruction.keep, InstructionKind.uses]

/-- It does the same with cleared operands. -/
theorem action_mapOperands (kind : InstructionKind) :
    action b (i.mapOperands Operand.clear) dialect here kind = action b i dialect here kind := by
  have hslot := slotValue_clear i
  cases kind with
  | assign =>
      refine bind_eq_bind (hslot _ _) fun left => ?_
      exact bind_require_clear i.right fun o =>
        bind_eq_bind (assigned_clear dialect here o) fun _ => rfl
  | identity => exact bind_eq_bind (hslot _ _) fun _ => bind_eq_bind (hslot _ _) fun _ => rfl
  | breakpoint => rfl
  | enterMonitor => exact bind_eq_bind (hslot _ _) fun _ => rfl
  | exitMonitor => exact bind_eq_bind (hslot _ _) fun _ => rfl
  | goto => rfl
  | branch => exact bind_eq_bind (hslot _ _) fun _ => rfl
  | invoke =>
      refine bind_require_clear i.invoke fun o => ?_
      rw [exprKind?_clear]
      split
      · rename_i kind hkind
        exact bind_eq_bind (convertCall_clear hkind) fun _ => rfl
      · rfl
  | giveBack => exact bind_eq_bind (hslot _ _) fun _ => rfl
  | leave => rfl
  | lookupSwitch =>
      have hkey : slotValue (i.mapOperands Operand.clear) "key" (i.mapOperands Operand.clear).key =
        slotValue i "key" i.key := hslot _ _
      simp only [action, hkey]
      rfl
  | tableSwitch =>
      have hkey : slotValue (i.mapOperands Operand.clear) "key" (i.mapOperands Operand.clear).key =
        slotValue i "key" i.key := hslot _ _
      simp only [action, hkey]
      rfl
  | throw => exact bind_eq_bind (hslot _ _) fun _ => rfl

/-- **The statement of an instruction is made of the slots that are used.** -/
theorem statement_clear : statement b i.clear dialect = statement b i dialect := by
  refine bind_congr fun here => ?_
  rw [Instruction.kind_clear]
  cases hkind : InstructionKind.ofName? i.kind with
  | none => rfl
  | some kind =>
      refine bind_eq_bind ?_ fun _ => rfl
      have hused : i.used = kind.uses := by simp only [Instruction.used, hkind]
      rw [Instruction.clear, hused, action_mapOperands, action_keep]

/-- An assigned phi keeps its sources, their values being cleared. -/
theorem phiSources?_clear : phiSources? i.clear =
    (phiSources? i).map (List.map (PhiSource.map Operand.clear)) := by
  unfold phiSources?
  rw [Instruction.kind_clear]
  split
  · rename_i hkind
    have hright : i.clear.right = i.right.map Operand.clear := by
      have hused : i.used = [.left, .right] := by simp only [Instruction.used, hkind]; rfl
      rw [Instruction.clear, hused]
      rfl
    rw [hright]
    cases i.right with
    | none => rfl
    | some right =>
        dsimp only [Option.map_some]
        rw [isPhi_clear]
        split
        · rename_i hphi
          rw [phiSources_clear hphi]
          rfl
        · rfl
  · rfl

end Instruction

/-! ### Bodies and methods

Handles, lists of blocks and edges are not touched by clearing.  What is left is that
both passes make the same of every instruction, and `convert_congr_body` asks for no
more.
-/

section Body

variable (b : Body) (dialect : Dialect)

theorem handles_clear : b.clear.handles = b.handles := by
  unfold Body.handles Body.clear
  rw [List.map_map]
  rfl

theorem label_clear : label b.clear = label b := label_congr (handles_clear b)

/-- The first pass makes the same of every handle. -/
theorem draft_clear (id : InstructionId) : draft b.clear dialect id = draft b dialect id := by
  have hfind : b.clear.instruction? id = (b.instruction? id).map Instruction.clear := by
    unfold Body.instruction? Body.clear
    rw [List.find?_map]
    rfl
  unfold draft instruction
  rw [hfind]
  cases b.instruction? id with
  | none => rfl
  | some i => exact (statement_congr (label_clear b) _ _).trans (statement_clear b i dialect)

theorem assignedPhis_clear : assignedPhis b.clear =
    (assignedPhis b).map (Prod.map id (List.map (PhiSource.map Operand.clear))) := by
  unfold assignedPhis Body.clear
  rw [List.map_filterMap, List.filterMap_map]
  congr 1
  funext i
  show (phiSources? i.clear).map _ = _
  rw [phiSources?_clear, Option.map_map, Option.map_map]
  rfl

theorem phiArg_clear (placed : Placement) (here : Label) (s : PhiSource Operand) :
    phiArg placed here (s.map Operand.clear) = phiArg placed here s := by
  unfold phiArg PhiSource.map
  cases placed.lookup s.origin with
  | none => rfl
  | some index => exact bind_eq_bind (convert_clear_operand s.value) fun _ => rfl

/-- The second pass finds the same sources. -/
theorem phiArgs_clear (placed : Placement) :
    phiArgs b.clear dialect placed = phiArgs b dialect placed := by
  unfold phiArgs
  split
  · show (assignedPhis b.clear).mapM _ = (assignedPhis b).mapM _
    rw [assignedPhis_clear, List.mapM_map]
    refine congrArg (List.mapM · (assignedPhis b)) (funext fun e => ?_)
    refine bind_eq_bind (congrFun (label_clear b) e.1) fun here => bind_eq_bind ?_ fun _ => rfl
    show (e.2.map (PhiSource.map Operand.clear)).mapM (phiArg placed here) = _
    rw [List.mapM_map]
    exact congrArg (List.mapM · e.2) (funext (phiArg_clear placed here))
  · rfl

theorem convert_clear_body (base : Code.Method) :
    b.clear.convert dialect base = b.convert dialect base :=
  convert_congr_body (handles_clear b) rfl (fun id _ => draft_clear b dialect id)
    (phiArgs_clear b dialect) base

end Body

/-- **A method is converted alike whatever stands in the slots that are not used**: the same code
comes out, or it fails in the same way. -/
theorem convert_clear (m : Dump.Method) (dialect : Dialect) (className : String) :
    m.clear.convert dialect className = m.convert dialect className := by
  refine bind_congr fun declared => ?_
  rw [show m.clear.body = m.body.map Body.clear from rfl]
  cases m.body with
  | none => rfl
  | some b => exact convert_clear_body b dialect _

end BytecodeIR.Conversion
