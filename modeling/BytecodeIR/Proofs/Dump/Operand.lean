/-
Induction over operands.

An operand is a record whose slots hold operands again, so whatever is shown of
every operand is shown for a record with the hypothesis that it holds of each
operand in its slots.  `Operand.induct` is that principle, and `Operand.fold_hom`
is the one consequence that most proofs need: a function that turns one rule for
records into another turns the fold of the one into the fold of the other.
-/
import BytecodeIR.Dump.Class

namespace BytecodeIR.Dump

variable {α β γ : Type}

/-- Everything that stands in the slots of a record. -/
def Slots.operands (s : Slots α) : List α :=
  s.base.toList ++ s.index.toList ++ s.left.toList ++ s.right.toList ++ s.single.toList ++
    s.size.toList ++ s.sizes ++ s.args ++ s.bootstrapArgs ++ s.phiSources.map (·.value)

@[simp] theorem Slots.map_map (g : β → γ) (f : α → β) (s : Slots α) :
    (s.map f).map g = s.map fun a => g (f a) := by
  simp [Slots.map, PhiSource.map, Function.comp_def]

@[simp] theorem Slots.operands_map (f : α → β) (s : Slots α) :
    (s.map f).operands = s.operands.map f := by
  simp [Slots.operands, Slots.map, PhiSource.map, Option.toList_map]

/-- What a replacement makes of a record depends only on the operands in it. -/
theorem Slots.map_congr {f g : α → β} {s : Slots α} (h : ∀ a ∈ s.operands, f a = g a) :
    s.map f = s.map g := by
  have hslot : ∀ slot : Option α, (∀ a ∈ slot.toList, f a = g a) → slot.map f = slot.map g := by
    intro slot hs
    cases slot with
    | none => rfl
    | some a => exact congrArg some (hs a (by simp))
  have hsources : s.phiSources.map (·.map f) = s.phiSources.map (·.map g) := by
    refine List.map_congr_left fun a ha => ?_
    have hmem : a.value ∈ s.operands :=
      List.mem_append_right _ (List.mem_map.mpr ⟨a, ha, rfl⟩)
    have hval := h a.value hmem
    simp [PhiSource.map, hval]
  simp only [operands, List.forall_mem_append] at h
  obtain ⟨⟨⟨⟨⟨⟨⟨⟨⟨hbase, hindex⟩, hleft⟩, hright⟩, hsingle⟩, hsize⟩, hsizes⟩, hargs⟩, hboot⟩, -⟩ :=
    h
  simp only [Slots.map, hslot _ hbase, hslot _ hindex, hslot _ hleft, hslot _ hright,
    hslot _ hsingle, hslot _ hsize, List.map_congr_left hsizes, List.map_congr_left hargs,
    List.map_congr_left hboot, hsources]

/-- An operand in a slot is smaller than the operand whose slot it is. -/
theorem Operand.sizeOf_lt_of_mem_operands {s : Slots Operand} {o : Operand}
    (h : o ∈ s.operands) : sizeOf o < sizeOf (Operand.of s) := by
  have hslot : ∀ slot : Option Operand, o ∈ slot.toList → sizeOf o < sizeOf slot := by
    intro slot hs
    cases slot with
    | none => simp at hs
    | some a =>
        rw [show o = a by simpa using hs]
        simp
  have hsource : ∀ sources : List (PhiSource Operand), o ∈ sources.map (·.value) →
      sizeOf o < sizeOf sources := by
    intro sources hs
    obtain ⟨a, ha, rfl⟩ := List.mem_map.mp hs
    have hlt := List.sizeOf_lt_of_mem ha
    cases a
    simp at hlt ⊢
    omega
  obtain ⟨⟩ := s
  simp only [Slots.operands, List.mem_append] at h
  simp only [Operand.of.sizeOf_spec, Slots.mk.sizeOf_spec]
  rcases h with ((((((((h | h) | h) | h) | h) | h) | h) | h) | h) | h
  · have := hslot _ h; omega
  · have := hslot _ h; omega
  · have := hslot _ h; omega
  · have := hslot _ h; omega
  · have := hslot _ h; omega
  · have := hslot _ h; omega
  · have := List.sizeOf_lt_of_mem h; omega
  · have := List.sizeOf_lt_of_mem h; omega
  · have := List.sizeOf_lt_of_mem h; omega
  · have := hsource _ h; omega

/-- A property that passes from the operands in a record to the record holds of every operand. -/
@[elab_as_elim] theorem Operand.induct {p : Operand → Prop}
    (step : ∀ s : Slots Operand, (∀ o ∈ s.operands, p o) → p (.of s)) : ∀ o, p o
  | .of s => step s fun o _ => Operand.induct step o
termination_by o => sizeOf o
decreasing_by exact Operand.sizeOf_lt_of_mem_operands ‹_›

/-- A function that turns one rule for records into another turns their folds into each other. -/
theorem Operand.fold_hom {rule : Slots β → β} {rule' : Slots γ → γ} {h : β → γ}
    (hrule : ∀ s, h (rule s) = rule' (s.map h)) (o : Operand) :
    h (o.fold rule) = o.fold rule' := by
  induction o using Operand.induct with
  | step s ih =>
      rw [Operand.fold_of, Operand.fold_of, hrule, Slots.map_map, Slots.map_congr ih]

/-! ### The operands of a program -/

/-- Every operand of an instruction. -/
def Instruction.operands (i : Instruction) : List Operand :=
  i.left.toList ++ i.right.toList ++ i.single.toList ++ i.condition.toList ++ i.invoke.toList ++
    i.key.toList

/-- Every operand in a body. -/
def Body.operands (b : Body) : List Operand := b.instructions.flatMap Instruction.operands

/-- Every operand in a method. -/
def Method.operands (m : Method) : List Operand := m.body.toList.flatMap Body.operands

/-- Every operand in a class. -/
def Class.operands (c : Class) : List Operand := c.methods.flatMap Method.operands

end BytecodeIR.Dump
