/-
Converted methods are well sorted.

Whatever stands in a converted operand was converted itself, so it is enough to look at
what a single record becomes.  There the tables decide: a kind of expression brings its
operator with it, and the rule for calls refuses a receiver or the lack of one.  All
values of a method are taken from its instructions, but for the phis that are assigned,
and those are met in one dialect only.
-/
import BytecodeIR.Proofs.Code.Sorts
import BytecodeIR.Proofs.Conversion.Structure
import BytecodeIR.Proofs.Conversion.Values

namespace BytecodeIR

/-! ### Kinds of expressions

The operator of an expression stands in the table that gives the kinds their names, so
whether it suits the sort of the expression is decided by looking through the table
once.
-/

/-- Whether a kind of expression has an operator of its sort. -/
def Dump.ExprKind.isWellSorted : Dump.ExprKind → Bool
  | .binary op => !op.isCondition && !op.isUnary
  | .unary op => op.isUnary
  | .condition op => op.isCondition
  | _ => true

theorem Dump.isWellSorted_of_ofName? {name : String} {k : Dump.ExprKind}
    (h : Dump.ExprKind.ofName? name = some k) : k.isWellSorted = true := by
  have hall : ∀ e ∈ Dump.ExprKind.table, e.2.isWellSorted = true := by decide
  exact hall _ (Dump.mem_of_lookup h)

namespace Conversion

open Code (Action Expr Invoke PhiArg Statement Value)
open Dump (Body Instruction Operand Slots)

/-! ### One record

Of a call it has to be seen that its kind and its receiver agree, and a bootstrap comes
with one kind only.  Both are refusals of the rule, so they are read off its having
succeeded.
-/

section Rule

variable {s : Slots Outcome}

theorem isSome_of_receiver {kind : Code.InvokeKind} {base : Option Value}
    (h : receiver s kind = .ok base) (hkind : kind.needsReceiver = true) : base.isSome := by
  unfold receiver at h
  split at h
  · split at h
    · cases h
    · obtain ⟨v, -, rfl⟩ := map_eq_ok.mp h
      rfl
  · rw [if_pos hkind] at h
    cases h

theorem receiver_static {base : Option Value} (h : receiver s .static = .ok base) :
    base = none := by
  unfold receiver at h
  split at h
  · cases h
  · exact (Except.ok.inj h).symm

theorem bootstrap_of_ne_dynamic {kind : Code.InvokeKind} {link : Option (Code.Bootstrap Value)}
    (h : bootstrap s kind = .ok link) (hkind : kind ≠ .dynamic) : link = none := by
  unfold bootstrap at h
  split at h
  · exact absurd rfl hkind
  · exact (Except.ok.inj h).symm

/-- **A converted call has what its kind asks for.** -/
theorem wellSorted_of_call {kind : Code.InvokeKind} {c : Invoke Value}
    (h : call s kind = .ok c) : c.WellSorted := by
  unfold call at h
  obtain ⟨target, -, h⟩ := bind_eq_ok.mp h
  obtain ⟨base, hbase, h⟩ := bind_eq_ok.mp h
  obtain ⟨link, hlink, h⟩ := bind_eq_ok.mp h
  obtain ⟨args, -, h⟩ := bind_eq_ok.mp h
  obtain rfl := Except.ok.inj h
  constructor
  case receiver =>
    intro hkind
    refine isSome_of_receiver hbase ?_
    simp only [List.mem_cons, List.not_mem_nil, or_false] at hkind
    rcases hkind with rfl | rfl | rfl
    all_goals rfl
  case noReceiver =>
    rintro rfl
    exact receiver_static hbase
  case bootstrap =>
    intro hsome
    by_contra hkind
    rw [bootstrap_of_ne_dynamic hlink hkind] at hsome
    cases hsome

/-- An expression takes its operator from its kind. -/
theorem wellSorted_of_expr {k : Dump.ExprKind} {e : Expr Value} (hk : k.isWellSorted = true)
    (h : expr s k = .ok e) : e.WellSorted := by
  cases k with
  | phi => cases h
  | binary op =>
      obtain ⟨left, -, h⟩ := bind_eq_ok.mp h
      obtain ⟨right, -, h⟩ := bind_eq_ok.mp h
      obtain rfl := Except.ok.inj h
      simpa [Dump.ExprKind.isWellSorted, Expr.WellSorted] using hk
  | unary op =>
      obtain ⟨value, -, h⟩ := bind_eq_ok.mp h
      obtain rfl := Except.ok.inj h
      exact hk
  | condition op =>
      obtain ⟨left, -, h⟩ := bind_eq_ok.mp h
      obtain ⟨right, -, h⟩ := bind_eq_ok.mp h
      obtain rfl := Except.ok.inj h
      exact hk
  | invoke kind =>
      obtain ⟨c, hc, h⟩ := bind_eq_ok.mp h
      obtain rfl := Except.ok.inj h
      exact wellSorted_of_call hc
  | _ =>
      -- The other expressions have no operator.
      simp only [expr, bind_eq_ok] at h
      grind [Expr.WellSorted]

end Rule

/-! ### Whole operands

That an expression is well sorted says nothing of what stands inside it.  That is said
of each thing inside on its own, as each was converted.
-/

theorem wellSorted_of_convert {o : Operand} {e : Expr Value} (h : o.convert = .ok (.ofExpr e)) :
    e.WellSorted := by
  obtain ⟨s⟩ := o
  rw [convert_of, value_eq_ok] at h
  rcases h with ⟨k, e', hk, he, heq⟩ | ⟨k, n, -, hn, heq⟩
  · obtain rfl := Value.ofExpr_injective heq
    exact wellSorted_of_expr (Dump.isWellSorted_of_ofName? hk) he
  · obtain rfl := Value.of.inj heq
    exact absurd hn (node_ne_expr _ e)

/-- **What an operand is converted to is sorted.** -/
theorem sorted_of_convert {o : Operand} {v : Value} (h : o.convert = .ok v) : v.Sorted := by
  intro e he
  obtain ⟨inside, hinside⟩ := exists_convert_of_standsIn h he
  exact ⟨wellSorted_of_convert hinside, convert_ne_phi hinside⟩

/-! ### Methods

In the plain dialect a phi is refused where it is assigned, and nowhere else could one
come from.
-/

section Method

variable {b : Body} {dialect : Dialect}

/-- In the plain dialect no phi is assigned. -/
theorem phiArgs?_of_denotes {i : Instruction} {here : Code.Label} {kind : Dump.InstructionKind}
    {a : Action} (h : Denotes b i .plain here kind a) : a.phiArgs? = none := by
  cases h with
  | assign hleft ho hright =>
      unfold assigned at hright
      split at hright
      · cases hright
      · exact phiArgs?_of_convert hright
  | _ => rfl

/-- **The statements of a converted body are made of sorted values.** -/
theorem Converted.sorted {base out : Code.Method} {drafts : List (List Statement)}
    {phis : List (Code.Label × List (PhiArg Value))}
    (h : Converted b dialect base out drafts phis) : ∀ s ∈ out.statements, s.Sorted dialect := by
  intro s hs
  obtain ⟨id, -, hmirrors⟩ := forall₂_mem_left h.mirrors.statements hs
  obtain ⟨i, -, hdraft⟩ := hmirrors.action
  obtain ⟨here, kind, a, -, -, ha, hsame⟩ := statement_eq_ok.mp hdraft
  -- The statement was made as it is now, but for the sources of its phi.
  have hdenotes : Denotes b i dialect here kind (s.action.withPhiArgs []) := by
    have haction : a = s.action.withPhiArgs [] := congrArg Statement.action hsame
    exact haction ▸ denotes_of_action ha
  constructor
  case values =>
    intro v hv
    obtain ⟨j, -, htaken⟩ := h.taken s hs v hv
    obtain ⟨o, ho⟩ := htaken.exists_convert
    exact sorted_of_convert ho
  case call =>
    intro c hc
    rw [hc] at hdenotes
    cases hdenotes with
    | invoke _ _ hcall => exact wellSorted_of_call hcall
  case plain =>
    rintro rfl
    have hnone := phiArgs?_of_denotes hdenotes
    rcases s.action.phi_or_unchanged with ⟨left, ty, sources, hphi⟩ | ⟨hnot, -⟩
    · rw [hphi] at hnone
      cases hnone
    · exact hnot

end Method

/-- **A converted method is well sorted.** -/
theorem convert_wellSorted {m : Dump.Method} {dialect : Dialect} {className : String}
    {out : Code.Method} (h : m.convert dialect className = .ok out) :
    ∀ s ∈ out.statements, s.WellSorted dialect := by
  intro s hs
  rcases converted_of_convert h with hnil | ⟨b, base, drafts, phis, -, hconverted⟩
  · rw [Code.Method.statements, hnil] at hs
    cases hs
  · exact (hconverted.sorted s hs).wellSorted

/-- A body that counts to the opposite of a number: a phi that adds one in each round, a condition
that negates, a dynamic call with a bootstrap and one on a receiver. -/
def countingBody : Body where
  instructions :=
    let record (kind : String) := Slots.ofKind kind "int"
    let i : Operand := .of { record "Local" with name := some "i" }
    let one : Operand := .of { record "IntConstant" with value := some (.integer 1) }
    let method : Dump.MethodRef := ⟨"Main", "count", ["int"]⟩
    [{ Instruction.ofKind ⟨0⟩ "JAssignStmt" with
        left := some i
        right := some (.of { record "SPhiExpr" with
          phiSources := [⟨one, ⟨3⟩⟩,
            ⟨.of { record "JAddExpr" with left := some i, right := some one }, ⟨1⟩⟩] }) },
      { Instruction.ofKind ⟨1⟩ "JIfStmt" with
        condition := some (.of { record "JLtExpr" with
          left := some i, right := some (.of { record "JNegExpr" with single := some i }) })
        target := some ⟨0⟩ },
      { Instruction.ofKind ⟨2⟩ "JInvokeStmt" with
        invoke := some (.of { record "JVirtualInvokeExpr" with
          method := some method
          base := some i
          args := [.of { record "JDynamicInvokeExpr" with
            method := some method
            bootstrapMethod := some method
            bootstrapArgs := [one] }] }) },
      { Instruction.ofKind ⟨3⟩ "JGotoStmt" with target := some ⟨0⟩ }]
  blocks := [⟨[⟨3⟩], [1], []⟩, ⟨[⟨0⟩, ⟨1⟩], [1, 2], []⟩, ⟨[⟨2⟩], [], []⟩]

/-- The method with the body `countingBody`. -/
def counting : Dump.Method := ⟨"count", ["int"], "void", 9, [], some countingBody⟩

theorem convert_wellSorted_counting : ∃ out,
    counting.convert .singleAssignment "Main" = .ok out ∧ out.statements.length = 4 ∧
      ∀ s ∈ out.statements, s.WellSorted .singleAssignment :=
  ⟨_, rfl, rfl, convert_wellSorted (m := counting) rfl⟩

end Conversion

end BytecodeIR
