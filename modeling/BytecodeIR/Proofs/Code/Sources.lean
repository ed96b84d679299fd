/-
Which phi sources the check of a method reaches.

A phi is an expression and expressions are values, so nothing in the shape of the
code keeps a phi from standing inside a cast, a call or another phi.  The check
looks at one place: the right-hand side of an assignment, and there at the phi
itself and not at what its sources hold.  Every other phi is buried.

What stands in a statement is said by a relation that goes down one operand at a
time, and the blocks that its sources come from are collected by a fold.  The two
agree, by induction on the value.  So the sources of a statement come in two parts,
those that the check reaches and those that are buried, and a method that passes
keeps all of them within itself exactly if it does so with the buried ones.

Nothing makes it do so.  The last part is a method that passes, although its only
phi takes a value from a block that is not there.
-/
import BytecodeIR.Proofs.Code.Check
import BytecodeIR.Proofs.Code.Codec.Class

namespace BytecodeIR.Code

/-! ### Phi sources in values -/

section Node

variable {α β : Type}

/-- The blocks that the sources of a node come from, if it is a phi. -/
def Node.sourceBlocks : Node α → List BlockIndex
  | .expr (.phi _ args) => args.map (·.block)
  | _ => []

theorem Node.sourceBlocks_map (f : α → β) (n : Node α) :
    (n.map f).sourceBlocks = n.sourceBlocks := by
  cases n with
  | expr e => cases e <;> simp [Node.map, Expr.map, Node.sourceBlocks, PhiArg.map]
  | _ => rfl

theorem Node.mem_sourceBlocks {n : Node α} {index : BlockIndex} :
    index ∈ n.sourceBlocks ↔ ∃ ty args, n = .expr (.phi ty args) ∧ ∃ a ∈ args, a.block = index := by
  unfold Node.sourceBlocks
  split
  · simp
  · rename_i hother
    simp only [List.not_mem_nil, false_iff]
    rintro ⟨ty, args, rfl, -⟩
    exact hother ty args rfl

end Node

namespace Value

/-- A value stands in another one: it is that one, or stands in one of its operands. -/
inductive StandsIn (v : Value) : Value → Prop
  | self : StandsIn v v
  | operand {n : Node Value} {w : Value} (hw : w ∈ n.operands) (h : StandsIn v w) :
      StandsIn v (.of n)

/-- A value has the source of a phi in it, at whatever depth. -/
def HasSource (v : Value) (a : PhiArg Value) : Prop :=
  ∃ ty args, StandsIn (.ofExpr (.phi ty args)) v ∧ a ∈ args

theorem hasSource_of {n : Node Value} {a : PhiArg Value} : (Value.of n).HasSource a ↔
    (∃ ty args, n = .expr (.phi ty args) ∧ a ∈ args) ∨ ∃ w ∈ n.operands, w.HasSource a := by
  constructor
  · rintro ⟨ty, args, hphi, ha⟩
    cases hphi with
    | self => exact .inl ⟨ty, args, rfl, ha⟩
    | operand hw h => exact .inr ⟨_, hw, ty, args, h, ha⟩
  · rintro (⟨ty, args, rfl, ha⟩ | ⟨w, hw, ty, args, hphi, ha⟩)
    · exact ⟨ty, args, .self, ha⟩
    · exact ⟨ty, args, .operand hw hphi, ha⟩

/-- The blocks that the phi sources in a value come from. -/
def sourceBlocks (v : Value) : List BlockIndex :=
  v.fold fun n => n.sourceBlocks ++ n.operands.flatten

theorem sourceBlocks_of (n : Node Value) :
    (Value.of n).sourceBlocks = n.sourceBlocks ++ n.operands.flatMap Value.sourceBlocks := by
  rw [sourceBlocks, fold_of, Node.sourceBlocks_map, Node.operands_map]
  rfl

/-- **The fold collects the sources of all phis that stand in a value.** -/
theorem mem_sourceBlocks {v : Value} {index : BlockIndex} :
    index ∈ v.sourceBlocks ↔ ∃ a, v.HasSource a ∧ a.block = index := by
  induction v using Value.induct with
  | step n ih =>
      rw [sourceBlocks_of, List.mem_append, Node.mem_sourceBlocks, List.mem_flatMap]
      constructor
      · rintro (⟨ty, args, rfl, a, ha, hindex⟩ | ⟨w, hw, hindex⟩)
        · exact ⟨a, hasSource_of.mpr (.inl ⟨ty, args, rfl, ha⟩), hindex⟩
        · obtain ⟨a, ha, hindex⟩ := (ih w hw).mp hindex
          exact ⟨a, hasSource_of.mpr (.inr ⟨w, hw, ha⟩), hindex⟩
      · rintro ⟨a, ha, hindex⟩
        rcases hasSource_of.mp ha with ⟨ty, args, rfl, hmem⟩ | ⟨w, hw, hmem⟩
        · exact .inl ⟨ty, args, rfl, a, hmem, hindex⟩
        · exact .inr ⟨w, hw, (ih w hw).mpr ⟨a, hmem, hindex⟩⟩

end Value

/-! ### Phi sources in statements -/

/-- The values of an action in which the check looks for no phi: instead of the phi that is assigned
there are the values of its sources. -/
def Action.unchecked : Action → List Value
  | .assign left (.of (.expr (.phi _ args))) => left :: args.map (·.value)
  | a => a.operands

section Action

variable {a : Action} {v : Value}

/-- An operand of an action is looked at by the check, or it is the phi that is assigned. -/
theorem Action.mem_operands (hv : v ∈ a.operands) : v ∈ a.unchecked ∨
    ∃ left ty args, a = .assign left v ∧ v = .ofExpr (.phi ty args) := by
  unfold unchecked
  split
  · rename_i left ty args
    simp only [operands, List.mem_cons, List.not_mem_nil, or_false] at hv
    rcases hv with rfl | rfl
    · exact .inl List.mem_cons_self
    · exact .inr ⟨left, ty, args, rfl, rfl⟩
  · exact .inl hv

theorem Action.unchecked_of_phiArgs? (h : a.phiArgs? = none) : a.unchecked = a.operands := by
  unfold unchecked
  split
  · cases h
  · rfl

end Action

namespace Statement

/-- A statement has the source of a phi in one of its operands. -/
def HasSource (s : Statement) (a : PhiArg Value) : Prop := ∃ v ∈ s.action.operands, v.HasSource a

/-- The blocks that the buried phi sources of a statement come from. -/
def buriedBlocks (s : Statement) : List BlockIndex :=
  s.action.unchecked.flatMap Value.sourceBlocks

/-- A source of a statement is one of the phi that it assigns, or buried. -/
theorem hasSource_iff {s : Statement} {a : PhiArg Value} : s.HasSource a ↔
    (∃ args, s.action.phiArgs? = some args ∧ a ∈ args) ∨
      ∃ v ∈ s.action.unchecked, v.HasSource a := by
  unfold HasSource Action.unchecked
  split
  · rename_i left ty args haction
    rw [haction]
    simp only [Action.operands, Action.phiArgs?, List.mem_cons, List.not_mem_nil, or_false,
      exists_eq_or_imp, exists_eq_left, Value.hasSource_of, Option.some.injEq, exists_eq_left']
    constructor
    · rintro (hleft | ⟨ty', args', hphi, ha⟩ | hvalue)
      · exact .inr (.inl hleft)
      · obtain ⟨-, rfl⟩ := Expr.phi.inj (Node.expr.inj hphi)
        exact .inl ha
      · exact .inr (.inr hvalue)
    · rintro (ha | hleft | hvalue)
      · exact .inr (.inl ⟨ty, args, rfl, ha⟩)
      · exact .inl hleft
      · exact .inr (.inr hvalue)
  · rename_i hother
    refine (or_iff_right ?_).symm
    rintro ⟨args, hargs, -⟩
    unfold Action.phiArgs? at hargs
    split at hargs
    · exact hother _ _ _ ‹_›
    · cases hargs

/-- **The sources of a statement are within a method if those of its phi are, and the buried
ones.** -/
theorem hasSource_lt_iff {s : Statement} {count : Nat} :
    (∀ a, s.HasSource a → a.block.toNat < count) ↔
      s.SourcesWithin count ∧ ∀ index ∈ s.buriedBlocks, index.toNat < count := by
  simp only [hasSource_iff, buriedBlocks, List.mem_flatMap, Value.mem_sourceBlocks]
  constructor
  · intro h
    refine ⟨fun args hargs a ha => h a (.inl ⟨args, hargs, ha⟩), ?_⟩
    rintro index ⟨v, hv, a, ha, rfl⟩
    exact h a (.inr ⟨v, hv, ha⟩)
  · rintro ⟨hphi, hburied⟩ a (⟨args, hargs, ha⟩ | ⟨v, hv, ha⟩)
    · exact hphi args hargs a ha
    · exact hburied a.block ⟨v, hv, a, ha, rfl⟩

end Statement

/-! ### The check of a method -/

namespace Method

/-- **In a method that passes its check, all phi sources come from blocks of the method exactly if
the buried ones do.** -/
theorem hasSource_lt_of_check {m : Method} (h : m.check = .ok ()) :
    (∀ s ∈ m.statements, ∀ a, s.HasSource a → a.block.toNat < m.blocks.length) ↔
      ∀ s ∈ m.statements, ∀ index ∈ s.buriedBlocks, index.toNat < m.blocks.length := by
  have hsources := (check_eq_ok.mp h).1.sources
  refine forall₂_congr fun s hs => ?_
  rw [Statement.hasSource_lt_iff]
  exact and_iff_right (hsources s hs)

/-- A method of one block that casts a phi, whose only source is zero from a given block. -/
def castPhi (index : BlockIndex) : Method where
  className := "Main"
  name := "narrow"
  params := []
  returnType := "int"
  attributes := [.static]
  exceptions := []
  blocks := [⟨⟨0⟩, ⟨0⟩,
    [.ofAction ⟨0⟩ (.assign (.localVariable "x" "int")
        (.ofExpr (.cast "int" "int" (.ofExpr (.phi "int" [⟨.int 0, index⟩]))))),
      .ofAction ⟨1⟩ (.giveBack (.localVariable "x" "int"))]⟩]
  successors := ∅
  exceptionalPredecessors := ∅

/-- A cast of a phi passes, and if the phi takes its value from the one block there is then so does
every source. -/
theorem hasSource_lt_castPhi : (castPhi ⟨0⟩).check = .ok () ∧
    ∀ s ∈ (castPhi ⟨0⟩).statements, ∀ a, s.HasSource a →
      a.block.toNat < (castPhi ⟨0⟩).blocks.length :=
  ⟨rfl, (hasSource_lt_of_check rfl).mpr (by decide)⟩

/-- **A cast of a phi passes as well if the phi takes its value from a block that is not there.** -/
theorem check_castPhi : (castPhi ⟨7⟩).check = .ok () ∧
    ¬ ∀ s ∈ (castPhi ⟨7⟩).statements, ∀ a, s.HasSource a →
      a.block.toNat < (castPhi ⟨7⟩).blocks.length := by
  refine ⟨rfl, fun h => ?_⟩
  have hburied := (Statement.hasSource_lt_iff.mp (h _ List.mem_cons_self)).2 ⟨7⟩ (by decide)
  exact absurd hburied (by decide)

end Method

end BytecodeIR.Code
