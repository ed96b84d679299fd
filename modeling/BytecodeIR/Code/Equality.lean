import BytecodeIR.Code.Value
/-!
Deciding whether two values are equal.

A node is known by its shape, which is the node with every operand forgotten, and by its operands in
order.  So two values are equal just when their outermost nodes have one shape and their operands
are equal one by one; doubles count as equal when their bits are.
-/

namespace BytecodeIR.Code

variable {α β γ : Type}

/-! ### A node is its shape and its operands -/

theorem Expr.map_map (g : β → γ) (f : α → β) (e : Expr α) :
    (e.map f).map g = e.map fun a => g (f a) := by
  cases e with
  | invoke c =>
    obtain ⟨kind, ty, target, base, args, bootstrap⟩ := c
    cases base <;> cases bootstrap <;>
      simp [Expr.map, Invoke.map, Bootstrap.map, Function.comp_def]
  | _ => simp [Expr.map, PhiArg.map, Function.comp_def]

theorem Node.map_map (g : β → γ) (f : α → β) (n : Node α) :
    (n.map f).map g = n.map fun a => g (f a) := by
  cases n <;> simp [Node.map, Expr.map_map]

theorem Expr.operands_map (f : α → β) (e : Expr α) : (e.map f).operands = e.operands.map f := by
  cases e with
  | invoke c =>
    obtain ⟨kind, ty, target, base, args, bootstrap⟩ := c
    cases base <;> cases bootstrap <;>
      simp [Expr.map, Expr.operands, Invoke.operands, Invoke.map, Bootstrap.map]
  | _ => simp [Expr.map, Expr.operands, PhiArg.map, Function.comp_def]

theorem Node.operands_map (f : α → β) (n : Node α) : (n.map f).operands = n.operands.map f := by
  cases n <;> simp [Node.map, Node.operands, Expr.operands_map]

private theorem phiArgs_eq {xs ys : List (PhiArg α)}
    (hs : xs.map (·.map fun _ => ()) = ys.map (·.map fun _ => ()))
    (ho : xs.map (·.value) = ys.map (·.value)) : xs = ys := by
  induction xs generalizing ys with
  | nil => cases ys <;> simp_all
  | cons x xs ih =>
    cases ys with
    | nil => simp at hs
    | cons y ys =>
      simp only [List.map_cons, List.cons.injEq] at hs ho
      obtain ⟨a, i⟩ := x
      obtain ⟨b, j⟩ := y
      simp only [PhiArg.map, PhiArg.mk.injEq, true_and] at hs
      simp only at ho
      rw [ho.1, hs.1, ih hs.2 ho.2]

private theorem length_eq_of_map_unit {xs ys : List α}
    (h : xs.map (fun _ => ()) = ys.map fun _ => ()) : xs.length = ys.length := by
  simpa using congrArg List.length h

private theorem invoke_eq {c d : Invoke α} (hs : c.map (fun _ => ()) = d.map fun _ => ())
    (ho : c.operands = d.operands) : c = d := by
  obtain ⟨kind, ty, target, base, args, bootstrap⟩ := c
  obtain ⟨kind', ty', target', base', args', bootstrap'⟩ := d
  simp only [Invoke.map, Invoke.mk.injEq] at hs
  obtain ⟨rfl, rfl, rfl, hbase, hargs, hboot⟩ := hs
  have hlen := length_eq_of_map_unit hargs
  have hbases : base.toList.length = base'.toList.length := by
    cases base <;> cases base' <;> simp_all
  obtain ⟨hfront, hback⟩ := List.append_inj ho (by simp [hbases, hlen])
  obtain ⟨hb, ha⟩ := List.append_inj hfront hbases
  have hb' : base = base' := by cases base <;> cases base' <;> simp_all
  have ha' : args = args' := ha
  have hboots : bootstrap = bootstrap' := by
    rcases bootstrap with _ | ⟨m, xs⟩ <;> rcases bootstrap' with _ | ⟨m', ys⟩ <;>
      simp_all [Bootstrap.map]
  subst hb' ha' hboots
  rfl

/-- Expressions of one shape with the same operands are equal. -/
theorem Expr.eq_of_shape_of_operands {e e' : Expr α}
    (hs : e.map (fun _ => ()) = e'.map fun _ => ()) (ho : e.operands = e'.operands) : e = e' := by
  cases e with
  | invoke c =>
    cases e' with
    | invoke d => rw [invoke_eq (by simpa [Expr.map] using hs) ho]
    | _ => simp [Expr.map] at hs
  | phi ty args =>
    cases e' with
    | phi ty' args' =>
      simp only [Expr.map, Expr.phi.injEq] at hs
      rw [hs.1, phiArgs_eq hs.2 ho]
    | _ => simp [Expr.map] at hs
  | _ => cases e' <;> simp_all [Expr.map, Expr.operands]

/-- Nodes of one shape with the same operands are equal. -/
theorem Node.eq_of_shape_of_operands {n m : Node α}
    (hs : n.map (fun _ => ()) = m.map fun _ => ()) (ho : n.operands = m.operands) : n = m := by
  cases n with
  | expr e =>
    cases m with
    | expr e' => rw [Expr.eq_of_shape_of_operands (by simpa [Node.map] using hs) ho]
    | _ => simp [Node.map] at hs
  | _ => cases m <;> simp_all [Node.map, Node.operands]

/-! ### Equality of values -/

/-- Whether every test of a list holds of the value at its place in another. -/
def holdPointwise : List (α → Bool) → List α → Bool
  | [], [] => true
  | f :: fs, a :: as => f a && holdPointwise fs as
  | _, _ => false

/-- Whether two values are the same. -/
def Value.same (v : Value) : Value → Bool :=
  v.fold fun n w =>
    n.map (fun _ => ()) = w.node.map (fun _ => ()) && holdPointwise n.operands w.node.operands

private theorem holdPointwise_same {vs ws : List Value}
    (h : ∀ v ∈ vs, ∀ w, v.same w = true ↔ v = w) :
    holdPointwise (vs.map Value.same) ws = true ↔ vs = ws := by
  induction vs generalizing ws with
  | nil => cases ws <;> simp [holdPointwise]
  | cons v vs ih =>
    cases ws with
    | nil => simp [holdPointwise]
    | cons w ws =>
      simp only [List.map_cons, holdPointwise, Bool.and_eq_true, List.cons.injEq]
      rw [h v List.mem_cons_self, ih fun v hv => h v (List.mem_cons_of_mem _ hv)]

private theorem Value.same_of (n m : Node Value) :
    (Value.of n).same (.of m) =
      (decide (n.map (fun _ => ()) = m.map fun _ => ()) &&
        holdPointwise (n.operands.map Value.same) m.operands) := by
  unfold Value.same
  rw [Value.fold_of, Node.map_map, Node.operands_map]
  rfl

theorem Value.same_iff (v w : Value) : v.same w = true ↔ v = w := by
  induction v using Value.induct generalizing w with
  | step n ih =>
    obtain ⟨m⟩ := w
    rw [Value.same_of, Bool.and_eq_true, decide_eq_true_eq,
      holdPointwise_same fun v hv w => ih v hv w]
    constructor
    · rintro ⟨hs, ho⟩
      rw [Node.eq_of_shape_of_operands hs ho]
    · rintro h
      cases h
      exact ⟨rfl, rfl⟩

instance : DecidableEq Value := fun v w => decidable_of_iff _ (Value.same_iff v w)

end BytecodeIR.Code
