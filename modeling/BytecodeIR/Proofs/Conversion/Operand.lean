/-
Which operands can be converted.

The conversion of an operand is the fold of a rule for one record, and so is
being well formed.  The two are compared one record at a time: given what became
of the operands inside, the rule succeeds exactly when the record fits and those
of the inner conversions that count have succeeded.  `Operand.fold_hom` lifts
this to whole operands, however deep they are.

The rule also settles where phis can be.  It never succeeds on one, so what an
operand is converted to is no phi.
-/
import BytecodeIR.Conversion.Operand
import BytecodeIR.Proofs.Dump.WellFormed
import BytecodeIR.Proofs.Success

namespace BytecodeIR.Conversion

open Code (Expr InvokeKind Node Value)
open Dump (ExprKind Holds Operand Slots ValueKind)

/-- A computation comes to a result. -/
def Succeeds {α : Type} (r : Except Failure α) : Prop := ∃ a, r = .ok a

section

variable {α β : Type}

@[simp] theorem succeeds_ok (a : α) : Succeeds (.ok a : Except Failure α) := ⟨a, rfl⟩

@[simp] theorem not_succeeds_error (e : Failure) : ¬ Succeeds (.error e : Except Failure α) := by
  rintro ⟨a, h⟩
  cases h

theorem succeeds_bind {x : Except Failure α} {f : α → Except Failure β} :
    Succeeds (x >>= f) ↔ ∃ a, x = .ok a ∧ Succeeds (f a) := by
  unfold Succeeds
  simp only [bind_eq_ok]
  exact ⟨fun ⟨b, a, ha, hb⟩ => ⟨a, ha, b, hb⟩, fun ⟨a, ha, b, hb⟩ => ⟨b, a, ha, hb⟩⟩

/-- A step whose result does not decide about the next one. -/
theorem succeeds_bind_const {x : Except Failure α} {f : α → Except Failure β} {p : Prop}
    (hf : ∀ a, Succeeds (f a) ↔ p) : Succeeds (x >>= f) ↔ Succeeds x ∧ p := by
  rw [succeeds_bind]
  simp only [hf, exists_and_right]
  rfl

@[simp] theorem succeeds_map {x : Except Failure α} {f : α → β} :
    Succeeds (x.map f) ↔ Succeeds x := by
  cases x with
  | error e => simp [Except.map]
  | ok a => simp [Except.map]

theorem succeeds_mapM {f : α → Except Failure β} {xs : List α} :
    Succeeds (xs.mapM f) ↔ ∀ x ∈ xs, Succeeds (f x) := exists_mapM_eq_ok

theorem require_eq_ok {kind name : String} {slot : Option α} {a : α} :
    require kind name slot = .ok a ↔ slot = some a := by
  cases slot with
  | none => simp [require]
  | some b => simp [require]

theorem succeeds_require {kind name : String} {slot : Option α} :
    Succeeds (require kind name slot) ↔ slot.isSome := by
  simp only [Succeeds, require_eq_ok, Option.isSome_iff_exists]

/-- A step for what stands in a slot. -/
theorem succeeds_require_bind {kind name : String} {slot : Option α}
    {f : α → Except Failure β} :
    Succeeds (require kind name slot >>= f) ↔ Holds (fun a => Succeeds (f a)) slot := by
  rw [succeeds_bind]
  simp only [require_eq_ok]
  rfl

end

/-! ### One record

The slots of the record hold what became of the operands, which may be a failure.
`Slots.FitsExpr` and `Slots.FitsNode` say what a kind asks of its record, and the rule
for the kind is the chain of steps that looks it up; so both fall into the same parts,
and the parts are compared one by one.  A slot that counts has to hold something that
succeeded, and what stands in the other slots is not looked at by either side.
-/

section Rule

variable (s : Slots Outcome)

theorem succeeds_operand {name : String} {slot : Option Outcome} :
    Succeeds (operand s name slot) ↔ Holds Succeeds slot := by
  unfold operand
  rw [succeeds_require_bind]

theorem succeeds_values {operands : List Outcome} :
    Succeeds (values operands) ↔ ∀ r ∈ operands, Succeeds r := succeeds_mapM

theorem succeeds_requireField : Succeeds (requireField s) ↔ s.field.isSome := by
  unfold requireField
  rw [succeeds_map, succeeds_require]

theorem textConstant_eq_ok {t : String} :
    textConstant s = .ok t ↔ s.value = some (.text t) := by
  unfold textConstant
  simp only [bind_eq_ok, require_eq_ok]
  constructor
  · rintro ⟨c, hc, h⟩
    cases c with
    | text t' => rw [hc, Except.ok.inj h]
    | integer i => cases h
    | real x => cases h
  · intro h
    exact ⟨_, h, rfl⟩

theorem integerConstant_eq_ok {i : Int64} :
    integerConstant s = .ok i ↔ s.value = some (.integer i) := by
  unfold integerConstant
  simp only [bind_eq_ok, require_eq_ok]
  constructor
  · rintro ⟨c, hc, h⟩
    cases c with
    | integer i' => rw [hc, Except.ok.inj h]
    | text t => cases h
    | real x => cases h
  · intro h
    exact ⟨_, h, rfl⟩

theorem succeeds_textConstant :
    Succeeds (textConstant s) ↔ ∃ t, s.value = some (.text t) := by
  simp only [Succeeds, textConstant_eq_ok]

theorem succeeds_integerConstant :
    Succeeds (integerConstant s) ↔ ∃ i, s.value = some (.integer i) := by
  simp only [Succeeds, integerConstant_eq_ok]

theorem succeeds_shortConstant :
    Succeeds (shortConstant s) ↔
      ∃ i, s.value = some (.integer i) ∧ -0x80000000 ≤ i.toInt ∧ i.toInt < 0x80000000 := by
  have hmin : Int32.minValue.toInt = -0x80000000 := by decide
  have hmax : Int32.maxValue.toInt = 0x80000000 - 1 := by decide
  unfold shortConstant
  rw [succeeds_bind]
  simp only [integerConstant_eq_ok, hmin, hmax, Int.le_sub_one_iff]
  refine exists_congr fun i => and_congr_right fun _ => ?_
  split
  · rename_i hi
    exact iff_of_true (succeeds_ok _) hi
  · rename_i hi
    exact iff_of_false (not_succeeds_error _) hi

theorem succeeds_realConstant :
    Succeeds (realConstant s) ↔ Holds Dump.Constant.IsReal s.value := by
  unfold realConstant
  rw [succeeds_require_bind]
  refine exists_congr fun c => and_congr_right fun _ => ?_
  cases c with
  | integer i => simp [Dump.Constant.IsReal]
  | real x => simp [Dump.Constant.IsReal]
  | text t =>
      simp only [Dump.Constant.IsReal]
      cases Double.ofText? t with
      | none => simp
      | some x => simp

theorem succeeds_receiver {kind : InvokeKind} :
    Succeeds (receiver s kind) ↔
      (kind.needsReceiver = true → s.base.isSome) ∧ (kind = .static → s.base = none) ∧
        ∀ r, s.base = some r → Succeeds r := by
  unfold receiver
  cases hbase : s.base with
  | none =>
      by_cases hneeds : kind.needsReceiver = true
      · simp [hneeds]
      · simp [hneeds]
  | some r =>
      by_cases hstatic : kind = .static
      · simp [hstatic]
      · simp [hstatic]

theorem succeeds_bootstrap {kind : InvokeKind} :
    Succeeds (bootstrap s kind) ↔
      (kind = .dynamic → s.bootstrapMethod.isSome → ∀ r ∈ s.bootstrapArgs, Succeeds r) := by
  unfold bootstrap
  cases kind with
  | dynamic =>
      cases s.bootstrapMethod with
      | none => simp
      | some m =>
          simp only [succeeds_bind_const fun _ => iff_true_intro (succeeds_ok _), succeeds_values,
            and_true, forall_const, Option.isSome_some]
  | _ => simp

theorem succeeds_call {kind : InvokeKind} :
    Succeeds (call s kind) ↔ s.FitsCall Succeeds kind := by
  -- Whatever the other parts of the call were, its last step rests on the arguments alone.
  have hlast : ∀ (target : Dump.MethodRef) (base : Option Value) link,
      Succeeds (values s.args >>= fun args =>
        .ok (⟨kind, s.ty, methodRef target, base, args, link⟩ : Code.Invoke Value)) ↔
        ∀ r ∈ s.args, Succeeds r := by
    intro target base link
    rw [succeeds_bind_const fun _ => iff_true_intro (succeeds_ok _), succeeds_values, and_true]
  unfold call
  rw [succeeds_bind_const fun target =>
    succeeds_bind_const fun base => succeeds_bind_const fun link => hlast target base link]
  rw [succeeds_require, succeeds_receiver, succeeds_bootstrap]
  constructor
  · rintro ⟨htarget, ⟨hneeds, hstatic, hbase⟩, hboot, hargs⟩
    exact ⟨htarget, hneeds, hstatic, hbase, hargs, hboot⟩
  · rintro ⟨htarget, hneeds, hstatic, hbase, hargs, hboot⟩
    exact ⟨htarget, ⟨hneeds, hstatic, hbase⟩, hboot, hargs⟩

/-- A single step that has a result of its own and then builds something of it. -/
theorem succeeds_bind_ok {α β : Type} {x : Except Failure α} {f : α → β} :
    Succeeds (x >>= fun a => .ok (f a)) ↔ Succeeds x := by
  rw [succeeds_bind_const fun _ => iff_true_intro (succeeds_ok _), and_true]

theorem succeeds_expr {k : ExprKind} : Succeeds (expr s k) ↔ s.FitsExpr Succeeds k := by
  cases k with
  | phi => simp [expr, Slots.FitsExpr]
  | binary op =>
      simp only [expr, Slots.FitsExpr, succeeds_bind_const fun _ => succeeds_bind_ok,
        succeeds_operand]
  | condition op =>
      simp only [expr, Slots.FitsExpr, succeeds_bind_const fun _ => succeeds_bind_ok,
        succeeds_operand]
  | unary op => simp only [expr, Slots.FitsExpr, succeeds_bind_ok, succeeds_operand]
  | length => simp only [expr, Slots.FitsExpr, succeeds_bind_ok, succeeds_operand]
  | cast =>
      simp only [expr, Slots.FitsExpr, succeeds_bind_const fun _ => succeeds_bind_ok,
        succeeds_operand, succeeds_require]
  | newArray =>
      simp only [expr, Slots.FitsExpr, succeeds_bind_const fun _ => succeeds_bind_ok,
        succeeds_operand, succeeds_require]
  | instanceOf =>
      simp only [expr, Slots.FitsExpr, succeeds_bind_const fun _ => succeeds_bind_ok,
        succeeds_operand, succeeds_require]
  | newObject => simp only [expr, Slots.FitsExpr, succeeds_bind_ok, succeeds_require]
  | newMultiArray =>
      simp only [expr, Slots.FitsExpr, succeeds_bind_const fun _ => succeeds_bind_ok,
        succeeds_values, succeeds_require]
  | invoke kind => simp only [expr, Slots.FitsExpr, succeeds_bind_ok, succeeds_call]

theorem succeeds_node {k : ValueKind} : Succeeds (node s k) ↔ s.FitsNode Succeeds k := by
  cases k with
  | localVariable => simp only [node, Slots.FitsNode, succeeds_bind_ok, succeeds_require]
  | param => simp only [node, Slots.FitsNode, succeeds_bind_ok, succeeds_require]
  | arrayRef =>
      simp only [node, Slots.FitsNode, succeeds_bind_const fun _ => succeeds_bind_ok,
        succeeds_operand]
  | instanceField =>
      simp only [node, Slots.FitsNode, succeeds_bind_const fun _ => succeeds_bind_ok,
        succeeds_operand, succeeds_requireField]
  | staticField => simp only [node, Slots.FitsNode, succeeds_bind_ok, succeeds_requireField]
  | caughtException => simp [node, Slots.FitsNode]
  | this => simp [node, Slots.FitsNode]
  | nullConstant => simp [node, Slots.FitsNode]
  | classConstant => simp only [node, Slots.FitsNode, succeeds_bind_ok, succeeds_textConstant]
  | stringConstant => simp only [node, Slots.FitsNode, succeeds_bind_ok, succeeds_textConstant]
  | doubleConstant => simp only [node, Slots.FitsNode, succeeds_bind_ok, succeeds_realConstant]
  | floatConstant => simp only [node, Slots.FitsNode, succeeds_bind_ok, succeeds_realConstant]
  | intConstant => simp only [node, Slots.FitsNode, succeeds_bind_ok, succeeds_shortConstant]
  | longConstant => simp only [node, Slots.FitsNode, succeeds_bind_ok, succeeds_integerConstant]

/-- The value of a record is that of the expression or of the other operand that it is. -/
theorem value_eq_ok {v : Value} :
    value s = .ok v ↔
      (∃ k e, ExprKind.ofName? (Dump.normalizeKind s.kind) = some k ∧ expr s k = .ok e ∧
        .ofExpr e = v) ∨
        ∃ k n, ValueKind.ofName? (Dump.normalizeKind s.kind) = some k ∧ node s k = .ok n ∧
          .of n = v := by
  unfold value
  dsimp only
  cases hexpr : ExprKind.ofName? (Dump.normalizeKind s.kind) with
  | some k =>
      have his := Dump.isExprKind_of_exprKind hexpr
      -- No name is that of an expression and that of another operand.
      have hnot : ValueKind.ofName? (Dump.normalizeKind s.kind) = none := by
        cases hvalue : ValueKind.ofName? (Dump.normalizeKind s.kind) with
        | none => rfl
        | some k' =>
            rw [Dump.isExprKind_of_valueKind hvalue] at his
            cases his
      simp [his, hnot, map_eq_ok]
  | none =>
      cases hvalue : ValueKind.ofName? (Dump.normalizeKind s.kind) with
      | some k => simp [Dump.isExprKind_of_valueKind hvalue, map_eq_ok]
      | none => by_cases his : Dump.isExprKind (Dump.normalizeKind s.kind) = true <;> simp [his]

theorem succeeds_value : Succeeds (value s) ↔ s.Fits Succeeds := by
  simp only [Succeeds, value_eq_ok, Slots.Fits, ← succeeds_expr, ← succeeds_node]
  constructor
  · rintro ⟨v, ⟨k, e, hk, he, -⟩ | ⟨k, n, hk, hn, -⟩⟩
    · exact .inl ⟨k, hk, e, he⟩
    · exact .inr ⟨k, hk, n, hn⟩
  · rintro (⟨k, hk, e, he⟩ | ⟨k, hk, n, hn⟩)
    · exact ⟨_, .inl ⟨k, e, hk, he, rfl⟩⟩
    · exact ⟨_, .inr ⟨k, n, hk, hn, rfl⟩⟩

/-! ### No phi comes out

The rule has a branch for each kind of expression, and the one for phis is a refusal.
What the other branches make is told apart from a phi by its constructor.
-/

theorem isPhi_of_expr {k : ExprKind} {e : Expr Value} (h : expr s k = .ok e) :
    e.isPhi = false := by
  cases k with
  | phi => cases h
  | _ =>
      simp only [expr, bind_eq_ok] at h
      grind [Expr.isPhi]

/-- A record of a kind that is no expression stands for none. -/
theorem node_ne_expr {k : ValueKind} (e : Expr Value) : node s k ≠ .ok (.expr e) := by
  intro h
  cases k with
  | caughtException => cases h
  | this => cases h
  | nullConstant => cases h
  | _ =>
      simp only [node, bind_eq_ok] at h
      grind

end Rule

/-! ### Whole operands

Conversion and well-formedness are folds of two rules that agree on one record, so they
agree on all operands.
-/

theorem convert_of (s : Slots Operand) :
    (Operand.of s).convert = value (s.map Operand.convert) := Operand.fold_of value s

/-- **An operand can be converted exactly if it is well formed.** -/
theorem succeeds_convert {o : Operand} : Succeeds o.convert ↔ o.WellFormed := by
  have hrule : ∀ s : Slots Outcome, Succeeds (value s) = Slots.Fits id (s.map Succeeds) := by
    intro s
    -- Fitting is a fold as well, over records that hold propositions.
    have hmap : Slots.Fits id (s.map Succeeds) ↔ s.Fits fun r => id (Succeeds r) :=
      Slots.fits_map
    exact propext ((succeeds_value s).trans hmap.symm)
  exact (Operand.fold_hom hrule o).to_iff

/-- What an operand is converted to is no phi. -/
theorem convert_ne_phi {o : Operand} {e : Expr Value} (h : o.convert = .ok (.ofExpr e)) :
    e.isPhi = false := by
  obtain ⟨s⟩ := o
  rw [convert_of, value_eq_ok] at h
  rcases h with ⟨k, e', -, he, hv⟩ | ⟨k, n, -, hn, hv⟩
  · injection hv with hv
    injection hv with hv
    rw [← hv]
    exact isPhi_of_expr _ he
  · injection hv with hv
    rw [hv] at hn
    exact absurd hn (node_ne_expr _ e)

/-- A call can be converted exactly if it is a well-formed operand. -/
theorem succeeds_convertCall {o : Operand} {kind : InvokeKind}
    (h : o.exprKind? = some (.invoke kind)) :
    Succeeds (o.convertCall kind) ↔ o.WellFormed := by
  obtain ⟨s⟩ := o
  have hkind : ExprKind.ofName? (Dump.normalizeKind s.kind) = some (.invoke kind) := h
  have hnot : ∀ k, ValueKind.ofName? (Dump.normalizeKind s.kind) ≠ some k := by
    intro k hk
    have his := Dump.isExprKind_of_exprKind hkind
    rw [Dump.isExprKind_of_valueKind hk] at his
    cases his
  unfold Operand.convertCall
  rw [succeeds_call, Slots.fitsCall_map, Operand.wellFormed_of]
  simp only [succeeds_convert, Slots.Fits, hkind, hnot, Option.some.injEq, false_and, exists_false,
    or_false]
  constructor
  · intro hfits
    exact ⟨_, rfl, hfits⟩
  · rintro ⟨k, rfl, hfits⟩
    exact hfits

end BytecodeIR.Conversion
