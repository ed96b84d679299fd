/-
Where the values of a statement come from.

A value in a slot of a record is what became of the operand there, so the operands of
a converted record are converted operands of it.  The values of a statement are
converted operands of its instruction, or the operands of a call that one of them is;
the one value that is made and not converted is a phi, and its sources are converted
operands again.

Whatever is shown of all converted operands is shown of whole methods through
`Converted.taken`, which says this once for all kinds of instructions and for both
passes.
-/
import BytecodeIR.Proofs.Code.Sources
import BytecodeIR.Proofs.Conversion.Acceptance
import BytecodeIR.Proofs.Conversion.Structure

namespace BytecodeIR.Conversion

open Code (Action Expr Label Node PhiArg Statement Value)
open Dump (Body Instruction Operand Slots)

/-! ### One record

Each rule gives back the values that it found in the slots, and it finds them through
`operand`, `values`, `receiver` or `bootstrap`.  For each of these it is said where in
the record such a value stood.
-/

section Rule

variable {s : Slots Outcome}

theorem operand_eq_ok {name : String} {slot : Option Outcome} {v : Value} :
    operand s name slot = .ok v ↔ slot = some (.ok v) := by
  unfold operand
  simp only [bind_eq_ok, require_eq_ok]
  exact ⟨fun ⟨r, hr, hv⟩ => hv ▸ hr, fun h => ⟨_, h, rfl⟩⟩

/-- What an operand in a slot of its own was converted to stands in the record. -/
theorem mem_of_slot {name : String} {slot : Option Outcome}
    (hslot : slot ∈ [s.base, s.index, s.left, s.right, s.single, s.size]) {v : Value}
    (h : operand s name slot = .ok v) : .ok v ∈ s.operands := by
  have hv := operand_eq_ok.mp h
  simp only [List.mem_cons, List.not_mem_nil, or_false] at hslot
  rcases hslot with rfl | rfl | rfl | rfl | rfl | rfl
  all_goals simp [Slots.operands, hv]

theorem mem_of_pair {v a b : Value} (ha : .ok a ∈ s.operands) (hb : .ok b ∈ s.operands)
    (h : v ∈ [a, b]) : .ok v ∈ s.operands := by
  simp only [List.mem_cons, List.not_mem_nil, or_false] at h
  rcases h with rfl | rfl
  · exact ha
  · exact hb

theorem mem_of_values {operands : List Outcome} {vs : List Value} (h : values operands = .ok vs)
    {v : Value} (hv : v ∈ vs) : .ok v ∈ operands := by
  obtain ⟨r, hr, hrv⟩ := forall₂_mem_left (mapM_eq_ok.mp h) hv
  exact hrv ▸ hr

theorem mem_of_receiver {kind : Code.InvokeKind} {base : Option Value}
    (h : receiver s kind = .ok base) {v : Value} (hv : base = some v) : s.base = some (.ok v) := by
  subst hv
  unfold receiver at h
  split at h
  · rename_i r hr
    split at h
    · cases h
    · obtain ⟨w, hw, hsome⟩ := map_eq_ok.mp h
      rw [hr, hw, Option.some.inj hsome]
  · split at h <;> cases h

theorem mem_of_bootstrap {kind : Code.InvokeKind} {b : Code.Bootstrap Value}
    (h : bootstrap s kind = .ok (some b)) {v : Value} (hv : v ∈ b.args) :
    .ok v ∈ s.bootstrapArgs := by
  unfold bootstrap at h
  split at h
  · obtain ⟨args, hargs, h⟩ := bind_eq_ok.mp h
    obtain rfl := Option.some.inj (Except.ok.inj h)
    exact mem_of_values hargs hv
  · cases h

theorem mem_of_call {kind : Code.InvokeKind} {c : Code.Invoke Value} (h : call s kind = .ok c)
    {v : Value} (hv : v ∈ c.operands) : .ok v ∈ s.operands := by
  unfold call at h
  obtain ⟨target, -, h⟩ := bind_eq_ok.mp h
  obtain ⟨base, hbase, h⟩ := bind_eq_ok.mp h
  obtain ⟨link, hlink, h⟩ := bind_eq_ok.mp h
  obtain ⟨args, hargs, h⟩ := bind_eq_ok.mp h
  obtain rfl := Except.ok.inj h
  simp only [Code.Invoke.operands, List.mem_append, Option.mem_toList] at hv
  rcases hv with (hv | hv) | hv
  · have hmem := mem_of_receiver hbase hv
    simp [Slots.operands, hmem]
  · have hmem := mem_of_values hargs hv
    simp [Slots.operands, hmem]
  · obtain ⟨b, hb, hv⟩ : ∃ b, link = some b ∧ v ∈ b.args := by
      cases link with
      | none => simp at hv
      | some b => exact ⟨b, rfl, hv⟩
    have hmem := mem_of_bootstrap (hb ▸ hlink) hv
    simp [Slots.operands, hmem]

theorem mem_of_expr {k : Dump.ExprKind} {e : Expr Value} (h : expr s k = .ok e) {v : Value}
    (hv : v ∈ e.operands) : .ok v ∈ s.operands := by
  cases k with
  | phi => cases h
  | invoke kind =>
      obtain ⟨c, hc, h⟩ := bind_eq_ok.mp h
      obtain rfl := Except.ok.inj h
      exact mem_of_call hc hv
  | newMultiArray =>
      obtain ⟨baseType, -, h⟩ := bind_eq_ok.mp h
      obtain ⟨sizes, hsizes, h⟩ := bind_eq_ok.mp h
      obtain rfl := Except.ok.inj h
      have hmem := mem_of_values hsizes hv
      simp [Slots.operands, hmem]
  | binary op =>
      obtain ⟨left, hleft, h⟩ := bind_eq_ok.mp h
      obtain ⟨right, hright, h⟩ := bind_eq_ok.mp h
      obtain rfl := Except.ok.inj h
      exact mem_of_pair (mem_of_slot (by simp) hleft) (mem_of_slot (by simp) hright) hv
  | condition op =>
      obtain ⟨left, hleft, h⟩ := bind_eq_ok.mp h
      obtain ⟨right, hright, h⟩ := bind_eq_ok.mp h
      obtain rfl := Except.ok.inj h
      exact mem_of_pair (mem_of_slot (by simp) hleft) (mem_of_slot (by simp) hright) hv
  | unary op =>
      obtain ⟨value, hvalue, h⟩ := bind_eq_ok.mp h
      obtain rfl := Except.ok.inj h
      exact List.mem_singleton.mp hv ▸ mem_of_slot (by simp) hvalue
  | cast =>
      obtain ⟨castType, -, h⟩ := bind_eq_ok.mp h
      obtain ⟨value, hvalue, h⟩ := bind_eq_ok.mp h
      obtain rfl := Except.ok.inj h
      exact List.mem_singleton.mp hv ▸ mem_of_slot (by simp) hvalue
  | length =>
      obtain ⟨value, hvalue, h⟩ := bind_eq_ok.mp h
      obtain rfl := Except.ok.inj h
      exact List.mem_singleton.mp hv ▸ mem_of_slot (by simp) hvalue
  | newObject =>
      obtain ⟨baseType, -, h⟩ := bind_eq_ok.mp h
      obtain rfl := Except.ok.inj h
      cases hv
  | newArray =>
      obtain ⟨baseType, -, h⟩ := bind_eq_ok.mp h
      obtain ⟨size, hsize, h⟩ := bind_eq_ok.mp h
      obtain rfl := Except.ok.inj h
      exact List.mem_singleton.mp hv ▸ mem_of_slot (by simp) hsize
  | instanceOf =>
      obtain ⟨checkType, -, h⟩ := bind_eq_ok.mp h
      obtain ⟨value, hvalue, h⟩ := bind_eq_ok.mp h
      obtain rfl := Except.ok.inj h
      exact List.mem_singleton.mp hv ▸ mem_of_slot (by simp) hvalue

theorem mem_of_node {k : Dump.ValueKind} {n : Node Value} (h : node s k = .ok n) {v : Value}
    (hv : v ∈ n.operands) : .ok v ∈ s.operands := by
  cases k with
  | arrayRef =>
      obtain ⟨base, hbase, h⟩ := bind_eq_ok.mp h
      obtain ⟨index, hindex, h⟩ := bind_eq_ok.mp h
      obtain rfl := Except.ok.inj h
      exact mem_of_pair (mem_of_slot (by simp) hbase) (mem_of_slot (by simp) hindex) hv
  | instanceField =>
      obtain ⟨base, hbase, h⟩ := bind_eq_ok.mp h
      obtain ⟨field, -, h⟩ := bind_eq_ok.mp h
      obtain rfl := Except.ok.inj h
      exact List.mem_singleton.mp hv ▸ mem_of_slot (by simp) hbase
  | _ =>
      simp only [node, bind_eq_ok] at h
      grind [Node.operands]

end Rule

/-! ### Whole operands

One step down in the converted operand is one step down in the operand.  The operands in
slots that the kind does not use have no counterpart, so nothing is said in the other
direction; but what stands in a converted operand was converted, at every depth.
-/

/-- The operands of what an operand is converted to are converted operands of it. -/
theorem mem_of_convert {o : Operand} {n : Node Value} (h : o.convert = .ok (.of n)) {v : Value}
    (hv : v ∈ n.operands) : ∃ inside ∈ o.slots.operands, inside.convert = .ok v := by
  obtain ⟨s⟩ := o
  have hmem : (.ok v : Outcome) ∈ (s.map Operand.convert).operands := by
    rw [convert_of, value_eq_ok] at h
    rcases h with ⟨k, e, -, he, heq⟩ | ⟨k, n', -, hn, heq⟩
    · obtain rfl := Value.of.inj heq
      exact mem_of_expr he hv
    · obtain rfl := Value.of.inj heq
      exact mem_of_node hn hv
  rwa [Slots.operands_map, List.mem_map] at hmem

/-- **Whatever stands in a converted operand was converted itself.** -/
theorem exists_convert_of_standsIn {o : Operand} {v w : Value} (h : o.convert = .ok v)
    (hw : Value.StandsIn w v) : ∃ inside : Operand, inside.convert = .ok w := by
  induction hw generalizing o with
  | self => exact ⟨o, h⟩
  | operand hv hw ih =>
      obtain ⟨inside, -, hinside⟩ := mem_of_convert h hv
      exact ih hinside

/-! ### One instruction

The values of a statement come from slots of its instruction in one of two ways.  A
value in a slot is converted as an operand, while a call is taken apart and its operands
are taken one by one.  `Taken` has a case for each.
-/

/-- A value is taken from an instruction: it is what an operand of the instruction was converted
to, or an operand inside of one. -/
inductive Taken (i : Instruction) (v : Value) : Prop
  | operand {o : Operand} (ho : o ∈ i.operands) (h : o.convert = .ok v)
  | inner {o inside : Operand} (ho : o ∈ i.operands) (hinside : inside ∈ o.slots.operands)
      (h : inside.convert = .ok v)

section Instruction

variable {b : Body} {i : Instruction} {dialect : Dialect} {here : Code.Label} {v : Value}

theorem Taken.exists_convert (h : Taken i v) : ∃ o : Operand, o.convert = .ok v := by
  cases h with
  | operand ho h => exact ⟨_, h⟩
  | inner ho hinside h => exact ⟨_, h⟩

/-- What stands in a slot is an operand of the instruction. -/
theorem mem_operands_of_slot {slot : Option Operand}
    (hslot : slot ∈ [i.left, i.right, i.single, i.condition, i.invoke, i.key]) {o : Operand}
    (ho : slot = some o) : o ∈ i.operands := by
  simp only [List.mem_cons, List.not_mem_nil, or_false] at hslot
  rcases hslot with rfl | rfl | rfl | rfl | rfl | rfl
  all_goals simp [Instruction.operands, ho]

theorem taken_of_slotValue {name : String} {slot : Option Operand}
    (hslot : slot ∈ [i.left, i.right, i.single, i.condition, i.invoke, i.key])
    (h : slotValue i name slot = .ok v) : Taken i v := by
  unfold slotValue at h
  obtain ⟨o, ho, h⟩ := bind_eq_ok.mp h
  exact .operand (mem_operands_of_slot hslot (require_eq_ok.mp ho)) h

theorem taken_of_convertCall {o : Operand} (ho : o ∈ i.operands) {kind : Code.InvokeKind}
    {c : Code.Invoke Value} (h : o.convertCall kind = .ok c) : ∀ v ∈ c.operands, Taken i v := by
  intro v hv
  obtain ⟨s⟩ := o
  have hmem : (.ok v : Outcome) ∈ (s.map Operand.convert).operands := mem_of_call h hv
  rw [Slots.operands_map, List.mem_map] at hmem
  obtain ⟨inside, hinside, hconvert⟩ := hmem
  exact .inner ho hinside hconvert

/-- An operand that is converted is no phi to be assigned. -/
theorem phiArgs?_of_convert {o : Operand} {left right : Value} (h : o.convert = .ok right) :
    (Action.assign left right).phiArgs? = none := by
  rcases (Action.assign left right).phi_or_unchanged with ⟨_, ty, sources, heq⟩ | ⟨hnone, -⟩
  · obtain ⟨-, rfl⟩ := Action.assign.inj heq
    exact absurd (convert_ne_phi h) (by simp [Expr.isPhi])
  · exact hnone

/-- The values of an assignment are taken from its instruction, except for a phi. -/
theorem taken_of_assigned {o : Operand} (ho : o ∈ i.operands) {left right : Value}
    (hleft : Taken i left) (h : assigned dialect here o = .ok right) :
    ∀ v ∈ (Action.assign left right).unchecked, Taken i v := by
  unfold assigned at h
  split at h
  · split at h
    · obtain rfl := Except.ok.inj h
      exact List.forall_mem_singleton.mpr hleft
    · cases h
  · rw [Action.unchecked_of_phiArgs? (phiArgs?_of_convert h)]
    simp only [Action.operands, List.forall_mem_cons]
    exact ⟨hleft, .operand ho h, List.forall_mem_nil _⟩

/-- **The values of a statement are taken from its instruction, except for a phi that is
assigned.** -/
theorem taken_of_denotes {kind : Dump.InstructionKind} {a : Action}
    (h : Denotes b i dialect here kind a) : ∀ v ∈ a.unchecked, Taken i v := by
  cases h with
  | assign hl ho hr =>
      exact taken_of_assigned (mem_operands_of_slot (by simp) ho)
        (taken_of_slotValue (by simp) hl) hr
  | identity hl hr =>
      have hl := taken_of_slotValue (by simp) hl
      have hr := taken_of_slotValue (by simp) hr
      simp [Action.unchecked, Action.operands, hl, hr]
  | breakpoint => exact List.forall_mem_nil _
  | enterMonitor hobject =>
      exact List.forall_mem_singleton.mpr (taken_of_slotValue (by simp) hobject)
  | exitMonitor hobject =>
      exact List.forall_mem_singleton.mpr (taken_of_slotValue (by simp) hobject)
  | goto => exact List.forall_mem_nil _
  | branch hc => exact List.forall_mem_singleton.mpr (taken_of_slotValue (by simp) hc)
  | invoke ho _ hcall => exact taken_of_convertCall (mem_operands_of_slot (by simp) ho) hcall
  | giveBack hvalue => exact List.forall_mem_singleton.mpr (taken_of_slotValue (by simp) hvalue)
  | leave => exact List.forall_mem_nil _
  | lookupSwitch _ _ hk => exact List.forall_mem_singleton.mpr (taken_of_slotValue (by simp) hk)
  | tableSwitch _ _ _ _ hk => exact List.forall_mem_singleton.mpr (taken_of_slotValue (by simp) hk)
  | throw hobject => exact List.forall_mem_singleton.mpr (taken_of_slotValue (by simp) hobject)

end Instruction

/-! ### One body

Statements of a converted body are those of the first pass with sources put into them.
For a value of a statement there are thus two places to look: the instruction that the
statement was made of, and the sources of the phi that it assigns, which the second pass
took from the same list of instructions.
-/

/-- Putting sources into a statement adds no values but those of the sources. -/
theorem mem_unchecked_putSources {phis : List (Label × List (PhiArg Value))} {s : Statement}
    {v : Value} (hv : v ∈ (putSources phis s).action.unchecked) :
    v ∈ s.action.unchecked ∨ ∃ e ∈ phis, ∃ arg ∈ e.2, v = arg.value := by
  unfold putSources at hv
  split at hv
  · rename_i args hargs
    rcases s.action.phi_or_unchanged with ⟨left, ty, sources, hphi⟩ | ⟨-, hsame⟩
    · rw [Statement.withPhiArgs, hphi] at hv
      rcases List.mem_cons.mp hv with rfl | hv
      · rw [hphi]
        exact .inl List.mem_cons_self
      · obtain ⟨arg, harg, rfl⟩ := List.mem_map.mp hv
        exact .inr ⟨_, Dump.mem_of_lookup hargs, arg, harg, rfl⟩
    · rw [Statement.withPhiArgs, hsame] at hv
      exact .inl hv
  · exact .inl hv

namespace Converted

variable {b : Body} {dialect : Dialect} {base out : Code.Method}
  {drafts : List (List Statement)} {phis : List (Label × List (PhiArg Value))}

/-- The sources that were found for a phi are taken from the instruction that assigns it. -/
theorem taken_of_phis (h : Converted b dialect base out drafts phis) :
    ∀ e ∈ phis, ∀ arg ∈ e.2, ∃ i ∈ b.instructions, Taken i arg.value := by
  have hresolved := h.resolved
  split at hresolved
  · intro e he arg harg
    obtain ⟨r, hr, -, hargs⟩ := forall₂_mem_left hresolved he
    obtain ⟨source, hsource, harg⟩ := forall₂_mem_left hargs harg
    obtain ⟨i, hi, hsources⟩ := List.mem_filterMap.mp hr
    obtain ⟨sources, hsome, rfl⟩ := Option.map_eq_some_iff.mp hsources
    obtain ⟨-, right, hright, -, rfl⟩ := phiSources?_eq_some.mp hsome
    have hinside : source.value ∈ right.slots.operands :=
      List.mem_append_right _ (List.mem_map_of_mem hsource)
    exact ⟨i, hi, .inner (mem_operands_of_slot (by simp) hright) hinside (phiArg_eq_ok.mp harg).2⟩
  · simp [hresolved]

/-- **The values of a converted body are taken from its instructions, except for the phis that are
assigned.** -/
theorem taken (h : Converted b dialect base out drafts phis) :
    ∀ s ∈ out.statements, ∀ v ∈ s.action.unchecked, ∃ i ∈ b.instructions, Taken i v := by
  intro s hs v hv
  obtain ⟨block, hblock, hs⟩ := Code.Method.mem_statements.mp hs
  obtain ⟨raw, -, hstatements⟩ := forall₂_mem_left h.statements_of_instructions hblock
  obtain ⟨id, -, i, draft, hi, hdraft, rfl⟩ := forall₂_mem_left hstatements hs
  rcases mem_unchecked_putSources hv with hv | ⟨e, he, arg, harg, rfl⟩
  · obtain ⟨here, kind, a, -, -, ha, rfl⟩ := statement_eq_ok.mp hdraft
    exact ⟨i, (Body.mem_of_instruction? hi).1, taken_of_denotes (denotes_of_action ha) v hv⟩
  · exact h.taken_of_phis e he arg harg

end Converted

end BytecodeIR.Conversion
