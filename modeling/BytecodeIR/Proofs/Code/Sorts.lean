/-
What well-sorted code is.

Nothing in the shape of the code keeps an addition from standing where two values are
compared, a static call from having a receiver, or a phi from standing in a cast.
Well-sorted code has none of that: every operator stands where operators of its sort
do, every call has what its kind asks for, and the only place for a phi is the whole
right-hand side of an assignment, in the dialect that has phis.

All of it is said of everything that stands in a statement, at whatever depth.  It
follows from something that is said value by value: a sorted value has no phi in it at
all, and a statement is made of sorted values but for the phi that it assigns.
-/
import BytecodeIR.Dialect
import BytecodeIR.Proofs.Code.Sources

namespace BytecodeIR.Code

/-! ### One expression -/

section Node

variable {α : Type}

/-- A call has what its kind asks for. -/
structure Invoke.WellSorted (c : Invoke α) : Prop where
  receiver : c.kind ∈ [.virtual, .interface, .special] → c.base.isSome
  noReceiver : c.kind = .static → c.base = none
  /-- Only a dynamic call is linked by a bootstrap. -/
  bootstrap : c.bootstrap.isSome → c.kind = .dynamic

/-- An expression has an operator of its sort, and a call has what its kind asks for. -/
def Expr.WellSorted : Expr α → Prop
  | .binary _ op _ _ => op.isCondition = false ∧ op.isUnary = false
  | .unary _ op _ => op.isUnary = true
  | .condition _ op _ _ => op.isCondition = true
  | .invoke call => call.WellSorted
  | _ => True

end Node

/-! ### Values -/

namespace Value

/-- Every expression in a value is well sorted, and none is a phi. -/
def Sorted (v : Value) : Prop := ∀ e, StandsIn (.ofExpr e) v → e.WellSorted ∧ e.isPhi = false

theorem standsIn_of {n : Node Value} {w : Value} :
    StandsIn w (.of n) ↔ w = .of n ∨ ∃ v ∈ n.operands, StandsIn w v := by
  constructor
  · intro h
    cases h with
    | self => exact .inl rfl
    | operand hv h => exact .inr ⟨_, hv, h⟩
  · rintro (rfl | ⟨v, hv, h⟩)
    · exact .self
    · exact .operand hv h

/-- What stands in a phi is the phi, or stands in one of its sources. -/
theorem standsIn_phi {ty : String} {args : List (PhiArg Value)} {e : Expr Value}
    (h : StandsIn (.ofExpr e) (.ofExpr (.phi ty args))) :
    e = .phi ty args ∨ ∃ arg ∈ args, StandsIn (.ofExpr e) arg.value := by
  rcases standsIn_of.mp h with heq | ⟨v, hv, h⟩
  · exact .inl (Node.expr.inj (Value.of.inj heq))
  · obtain ⟨arg, harg, rfl⟩ := List.mem_map.mp hv
    exact .inr ⟨arg, harg, h⟩

end Value

/-! ### Statements -/

namespace Statement

variable {dialect : Dialect} {s : Statement}

/-- A statement is well sorted in a dialect. -/
structure WellSorted (dialect : Dialect) (s : Statement) : Prop where
  exprs : ∀ v ∈ s.action.operands, ∀ e, Value.StandsIn (.ofExpr e) v → e.WellSorted
  call : ∀ c, s.action = .invoke c → c.WellSorted
  /-- No phi stands in a statement, except that it may be the right-hand side of an assignment. -/
  phis : ∀ v ∈ s.action.unchecked, ∀ e, Value.StandsIn (.ofExpr e) v → e.isPhi = false
  /-- In the plain dialect no phi stands in a statement at all. -/
  plain : dialect = .plain →
    ∀ v ∈ s.action.operands, ∀ e, Value.StandsIn (.ofExpr e) v → e.isPhi = false

/-- What stands in a statement is the phi that is assigned, or stands in another value. -/
theorem standsIn_unchecked {v : Value} (hv : v ∈ s.action.operands) {e : Expr Value}
    (he : Value.StandsIn (.ofExpr e) v) :
    (∃ ty args, e = .phi ty args ∧ s.action.phiArgs? = some args) ∨
      ∃ w ∈ s.action.unchecked, Value.StandsIn (.ofExpr e) w := by
  rcases Action.mem_operands hv with hunchecked | ⟨left, ty, args, haction, rfl⟩
  · exact .inr ⟨v, hunchecked, he⟩
  · rw [haction]
    rcases Value.standsIn_phi he with rfl | ⟨arg, harg, he⟩
    · exact .inl ⟨ty, args, rfl, rfl⟩
    · exact .inr ⟨arg.value, List.mem_cons_of_mem _ (List.mem_map_of_mem harg), he⟩

/-- A statement is made of sorted values, leaving out a phi that is assigned; its call has what it
asks for, and it assigns a phi only where there are any. -/
structure Sorted (dialect : Dialect) (s : Statement) : Prop where
  values : ∀ v ∈ s.action.unchecked, v.Sorted
  call : ∀ c, s.action = .invoke c → c.WellSorted
  plain : dialect = .plain → s.action.phiArgs? = none

/-- **A statement that is made of sorted values is well sorted.** -/
theorem Sorted.wellSorted (h : s.Sorted dialect) : s.WellSorted dialect := by
  constructor
  case exprs =>
    intro v hv e he
    rcases standsIn_unchecked hv he with ⟨ty, args, rfl, -⟩ | ⟨w, hw, he⟩
    · trivial
    · exact (h.values w hw e he).1
  case call => exact h.call
  case phis =>
    intro v hv e he
    exact (h.values v hv e he).2
  case plain =>
    intro hdialect v hv e he
    rcases standsIn_unchecked hv he with ⟨ty, args, -, hargs⟩ | ⟨w, hw, he⟩
    · rw [h.plain hdialect] at hargs
      cases hargs
    · exact (h.values w hw e he).2

end Statement

end BytecodeIR.Code
