/-
The conversion accepts exactly the well-formed methods.

`Method.WellFormed` says what a well-formed dump is without mentioning the
conversion, and this file shows that the conversion succeeds on these dumps and on
no others.  For operands that is known already.  Instructions follow by cases on
their kind.  For a body the two passes have been taken apart into `Converted`, and
it remains to see when its parts exist: a statement for every listed instruction,
sources for every phi, a block for every list of statements.

None of the parts depends on another having come out in some particular way, so
each is settled on its own; only that handles are distinct is used throughout.
-/
import BytecodeIR.Proofs.Code.Attribute
import BytecodeIR.Proofs.Conversion.Structure

namespace BytecodeIR.Conversion

open Code (Label PhiArg Statement Value)
open Dump (Body ExprKind Holds Instruction InstructionId InstructionKind Operand)

/-! ### One instruction

What an instruction `Fits` is a conjunction over its slots, and its conversion is a
chain over them.  Each slot has its own equivalence, and since no later step looks at
what an earlier one made, the chain succeeds exactly if every link does.  Only the two
switches check something between their slots, and the call is converted by the rule for
calls without being an operand itself.
-/

section Instruction

variable {b : Body} {i : Instruction} {dialect : Dialect} {here : Label}

theorem succeeds_label {id : InstructionId} : Succeeds (label b id) ↔ id ∈ b.handles := exists_label

theorem succeeds_labels {ids : List InstructionId} :
    Succeeds (ids.mapM (label b)) ↔ ∀ id ∈ ids, id ∈ b.handles := by
  rw [succeeds_mapM]
  exact forall₂_congr fun id _ => succeeds_label

theorem succeeds_slotValue {name : String} {slot : Option Operand} :
    Succeeds (slotValue i name slot) ↔ Holds Operand.WellFormed slot := by
  unfold slotValue
  rw [succeeds_require_bind]
  simp only [succeeds_convert]

theorem succeeds_target : Succeeds (target b i) ↔ Holds (· ∈ b.handles) i.target := by
  unfold target
  rw [succeeds_require_bind]
  simp only [succeeds_label]

theorem succeeds_defaultTarget :
    Succeeds (defaultTarget b i) ↔ Holds (· ∈ b.handles) i.defaultTarget := by
  unfold defaultTarget
  rw [succeeds_require_bind]
  simp only [succeeds_label]

theorem isPhi_eq_true {o : Operand} : o.isPhi = true ↔ o.IsPhi := by
  unfold Operand.isPhi Operand.exprKind?
  rw [beq_iff_eq]
  rfl

/-- A phi is no well-formed operand. -/
theorem not_wellFormed_of_isPhi {o : Operand} (h : o.IsPhi) : ¬ o.WellFormed := by
  obtain ⟨s⟩ := o
  have hphi : ExprKind.ofName? (Dump.normalizeKind s.kind) = some .phi := h
  rw [Operand.wellFormed_of]
  rintro (⟨k, hk, hfits⟩ | ⟨k, hk, -⟩)
  · rw [hphi] at hk
    cases hk
    exact hfits
  · have his := Dump.isExprKind_of_exprKind hphi
    rw [Dump.isExprKind_of_valueKind hk] at his
    cases his

theorem hasPhis_eq_true : dialect.hasPhis = true ↔ dialect = .singleAssignment := by
  cases dialect with
  | singleAssignment => simp [Dialect.hasPhis]
  | plain => simp [Dialect.hasPhis]

theorem succeeds_assigned {right : Operand} :
    Succeeds (assigned dialect here right) ↔ right.Assignable dialect := by
  unfold assigned Operand.Assignable
  by_cases hphi : right.isPhi = true
  · have hnot := not_wellFormed_of_isPhi (isPhi_eq_true.mp hphi)
    rw [if_pos hphi, ← hasPhis_eq_true]
    by_cases hd : dialect.hasPhis = true
    · rw [if_pos hd]
      exact iff_of_true (succeeds_ok _) (.inr ⟨hd, isPhi_eq_true.mp hphi⟩)
    · rw [if_neg hd]
      refine iff_of_false (not_succeeds_error _) ?_
      rintro (h | ⟨h, -⟩)
      · exact hnot h
      · exact hd h
  · have hno : ¬ right.IsPhi := fun h => hphi (isPhi_eq_true.mpr h)
    rw [if_neg hphi, succeeds_convert]
    simp [hno]

/-- A step that is taken unless something is wrong. -/
theorem succeeds_unless {α : Type} {wrong : Prop} [Decidable wrong] {e : Failure}
    {x : Except Failure α} :
    Succeeds (if wrong then (throw e : Except Failure PUnit) >>= fun _ => x else x) ↔
      ¬ wrong ∧ Succeeds x := by
  by_cases h : wrong
  · rw [if_pos h]
    exact iff_of_false (not_succeeds_error e) fun hx => hx.1 h
  · rw [if_neg h]
    simp [h]

/-- The part that the two kinds of switch have in common. -/
theorem succeeds_switch {f : List Label → Value → Label → Code.Action} :
    Succeeds (do
      let targets ← i.targets.mapM (label b)
      let key ← slotValue i "key" i.key
      let l ← defaultTarget b i
      .ok (f targets key l) : Except Failure Code.Action) ↔
      (∀ id ∈ i.targets, id ∈ b.handles) ∧ Holds Operand.WellFormed i.key ∧
        Holds (· ∈ b.handles) i.defaultTarget := by
  rw [succeeds_bind_const fun _ => succeeds_bind_const fun _ => succeeds_bind_ok, succeeds_labels,
    succeeds_slotValue, succeeds_defaultTarget]

/-- **An instruction taken to be of a kind can be converted exactly if it has what the kind
needs.** -/
theorem succeeds_action {kind : InstructionKind} :
    Succeeds (action b i dialect here kind) ↔ i.Fits b dialect kind := by
  cases kind with
  | assign =>
      unfold action Instruction.Fits
      rw [succeeds_bind_const (p := Holds (Operand.Assignable dialect) i.right) fun left => ?_,
        succeeds_slotValue]
      rw [succeeds_require_bind]
      simp only [succeeds_bind_ok, succeeds_assigned]
  | identity =>
      simp only [action, Instruction.Fits, succeeds_bind_const fun _ => succeeds_bind_ok,
        succeeds_slotValue]
  | breakpoint => exact iff_of_true (succeeds_ok _) trivial
  | enterMonitor => simp only [action, Instruction.Fits, succeeds_bind_ok, succeeds_slotValue]
  | exitMonitor => simp only [action, Instruction.Fits, succeeds_bind_ok, succeeds_slotValue]
  | goto => simp only [action, Instruction.Fits, succeeds_bind_ok, succeeds_target]
  | branch =>
      simp only [action, Instruction.Fits, succeeds_bind_const fun _ => succeeds_bind_ok,
        succeeds_slotValue, succeeds_target]
  | invoke =>
      unfold action Instruction.Fits
      rw [succeeds_require_bind]
      refine exists_congr fun o => and_congr_right fun _ => ?_
      dsimp only
      have hcall : o.IsCall ↔ ∃ kind, o.exprKind? = some (.invoke kind) := Iff.rfl
      split
      · rename_i kind hkind
        rw [succeeds_bind_ok, succeeds_convertCall hkind, hcall]
        simp [hkind]
      · rename_i hother
        refine iff_of_false (not_succeeds_error _) ?_
        rintro ⟨⟨kind, hkind⟩, -⟩
        exact hother kind hkind
  | giveBack => simp only [action, Instruction.Fits, succeeds_bind_ok, succeeds_slotValue]
  | leave => exact iff_of_true (succeeds_ok _) trivial
  | lookupSwitch =>
      simp only [action, Instruction.Fits, succeeds_unless, succeeds_switch, ne_eq, not_not]
      rw [eq_comm]
  | tableSwitch =>
      simp only [action, Instruction.Fits, succeeds_require_bind, succeeds_unless, succeeds_switch,
        ne_eq, not_not]
      constructor
      · rintro ⟨low, hlow, high, hhigh, hcount, hrest⟩
        exact ⟨⟨low, high, hlow, hhigh, hcount.symm⟩, hrest⟩
      · rintro ⟨⟨low, high, hlow, hhigh, hcount⟩, hrest⟩
        exact ⟨low, hlow, high, hhigh, hcount.symm, hrest⟩
  | throw => simp only [action, Instruction.Fits, succeeds_bind_ok, succeeds_slotValue]

theorem succeeds_statement :
    Succeeds (statement b i dialect) ↔ i.id ∈ b.handles ∧ i.WellFormed b dialect := by
  unfold Succeeds Instruction.WellFormed
  simp only [statement_eq_ok]
  constructor
  · rintro ⟨s, here, kind, a, hhere, hkind, ha, -⟩
    exact ⟨exists_label.mp ⟨here, hhere⟩, kind, hkind, succeeds_action.mp ⟨a, ha⟩⟩
  · rintro ⟨hid, kind, hkind, hfits⟩
    obtain ⟨here, hhere⟩ := exists_label.mpr hid
    obtain ⟨a, ha⟩ := succeeds_action.mpr hfits
    exact ⟨_, here, kind, a, hhere, hkind, ha, rfl⟩

end Instruction

/-! ### The statements of a body

Handles are listed in blocks and instructions in the body.  Because no two instructions
share a handle, the instruction that a listed handle leads to is the only one there is,
and it makes no difference whether the condition is put on the instructions or on the
handles.
-/

section Body

variable {b : Body} {dialect : Dialect}

/-- A statement is made under a handle if there is an instruction that can be converted. -/
theorem exists_drafts (hb : b.DistinctHandles) {id : InstructionId} :
    (∃ s, Drafts b dialect id s) ↔
      id ∈ b.handles ∧ ∀ i ∈ b.instructions, i.id = id → i.WellFormed b dialect := by
  constructor
  · rintro ⟨s, i, hi, hs⟩
    obtain ⟨hmem, hid⟩ := Body.mem_of_instruction? hi
    obtain ⟨hhandle, hwell⟩ := succeeds_statement.mp ⟨s, hs⟩
    refine ⟨hid ▸ hhandle, fun i' hi' hid' => ?_⟩
    -- The instruction found under the handle is the only one with it.
    have hsame := Body.instruction?_id hb hi'
    rw [hid', hi] at hsame
    rwa [← Option.some.inj hsame]
  · rintro ⟨hhandle, hwell⟩
    obtain ⟨i, hi⟩ := Body.exists_instruction? hhandle
    obtain ⟨hmem, hid⟩ := Body.mem_of_instruction? hi
    obtain ⟨s, hs⟩ := succeeds_statement.mpr ⟨hid.symm ▸ hhandle, hwell i hmem hid⟩
    exact ⟨s, i, hi, hs⟩

/-- **The first pass has a statement for every listed instruction exactly if each of them is in the
body and well formed.** -/
theorem exists_draftsBlocks (hb : b.DistinctHandles) :
    (∃ drafts, List.Forall₂ (DraftsBlock b dialect) b.blocks drafts) ↔
      (∀ id ∈ b.placed, id ∈ b.handles) ∧
        ∀ i ∈ b.instructions, i.id ∈ b.placed → i.WellFormed b dialect := by
  have hplaced : (∃ drafts, List.Forall₂ (DraftsBlock b dialect) b.blocks drafts) ↔
      ∀ id ∈ b.placed, ∃ s, Drafts b dialect id s := by
    unfold DraftsBlock
    simp only [exists_forall₂, Body.mem_placed]
    constructor
    · rintro h id ⟨block, hblock, hid⟩
      exact h block hblock id hid
    · intro h block hblock id hid
      exact h id ⟨block, hblock, hid⟩
  rw [hplaced]
  simp only [exists_drafts hb]
  constructor
  · intro h
    exact ⟨fun id hid => (h id hid).1, fun i hi hid => (h i.id hid).2 i hi rfl⟩
  · rintro ⟨hknown, hwell⟩ id hid
    refine ⟨hknown id hid, ?_⟩
    rintro i hi rfl
    exact hwell i hi hid

/-! ### The sources of phis

All instructions of the body are gone through here and not only the listed ones, so the
condition on sources is about all of them as well.
-/

theorem succeeds_phiArg {here : Label} {s : Dump.PhiSource Operand} :
    Succeeds (phiArg (placement b) here s) ↔ s.origin ∈ b.placed ∧ s.value.WellFormed := by
  rw [← lookup_placement_isSome, ← succeeds_convert]
  unfold phiArg
  cases (placement b).lookup s.origin with
  | none => simp
  | some index => simp [succeeds_bind_ok]

/-- The sources that an instruction has for a phi: those of the phi that it assigns. -/
theorem phiSources?_eq_some {i : Instruction} {sources : List (Dump.PhiSource Operand)} :
    phiSources? i = some sources ↔
      InstructionKind.ofName? i.kind = some .assign ∧
        ∃ right, i.right = some right ∧ right.IsPhi ∧ right.slots.phiSources = sources := by
  unfold phiSources?
  by_cases hkind : InstructionKind.ofName? i.kind = some .assign
  · rw [if_pos hkind]
    cases i.right with
    | none => simp
    | some right =>
        by_cases hphi : right.isPhi = true
        · simp [hkind, hphi, isPhi_eq_true.mp hphi]
        · have hno : ¬ right.IsPhi := fun h => hphi (isPhi_eq_true.mpr h)
          simp [hphi, hno]
  · rw [if_neg hkind]
    simp [hkind]

/-- **The second pass has sources for every phi exactly if each source comes from a listed
instruction and is well formed.** -/
theorem exists_resolvesPhi :
    (∃ phis, List.Forall₂ (ResolvesPhi b) (assignedPhis b) phis) ↔
      ∀ i ∈ b.instructions, InstructionKind.ofName? i.kind = some .assign →
        ∀ right, i.right = some right → right.IsPhi →
          ∀ s ∈ right.slots.phiSources, s.origin ∈ b.placed ∧ s.value.WellFormed := by
  have hone : ∀ e, e.1 ∈ b.handles → ((∃ r, ResolvesPhi b e r) ↔
      ∀ s ∈ e.2, s.origin ∈ b.placed ∧ s.value.WellFormed) := by
    intro e he
    obtain ⟨here, hhere⟩ := exists_label.mpr he
    have hargs :
        (∃ args, List.Forall₂ (fun s arg => phiArg (placement b) here s = .ok arg) e.2 args) ↔
        ∀ s ∈ e.2, s.origin ∈ b.placed ∧ s.value.WellFormed := by
      rw [exists_forall₂]
      exact forall₂_congr fun s _ => succeeds_phiArg
    rw [← hargs]
    constructor
    · rintro ⟨⟨l, args⟩, hl, hr⟩
      obtain rfl : here = l := Except.ok.inj (hhere.symm.trans hl)
      exact ⟨args, hr⟩
    · rintro ⟨args, hr⟩
      exact ⟨⟨here, args⟩, hhere, hr⟩
  rw [exists_forall₂]
  constructor
  · intro h i hi hkind right hright hphi
    have hmem : (i.id, right.slots.phiSources) ∈ assignedPhis b := by
      refine List.mem_filterMap.mpr ⟨i, hi, ?_⟩
      rw [phiSources?_eq_some.mpr ⟨hkind, right, hright, hphi, rfl⟩]
      rfl
    exact (hone _ (List.mem_map.mpr ⟨i, hi, rfl⟩)).mp (h _ hmem)
  · intro h e he
    obtain ⟨i, hi, hsome⟩ := List.mem_filterMap.mp he
    obtain ⟨sources, hsources, rfl⟩ := Option.map_eq_some_iff.mp hsome
    obtain ⟨hkind, right, hright, hphi, rfl⟩ := phiSources?_eq_some.mp hsources
    exact (hone _ (List.mem_map.mpr ⟨i, hi, rfl⟩)).mpr (h i hi hkind right hright hphi)

/-! ### Bodies and methods

In the one direction the parts of `Converted` are read off.  In the other direction they
are put together: the statements and the sources exist by the sections above, and the
blocks exist because no list of statements is empty, which putting sources into
statements does not change.
-/

/-- Blocks can be made of statements as long as there are some for each. -/
theorem exists_makesBlock {lists : List (List Statement)} (h : ∀ ss ∈ lists, ss ≠ []) :
    ∃ blocks, List.Forall₂ (fun e block => MakesBlock e.2 e.1 block) lists.zipIdx blocks := by
  refine exists_forall₂.mpr fun e he => ?_
  have hne := h e.1 (List.fst_mem_of_mem_zipIdx he)
  obtain ⟨head, rest, hcons⟩ := List.exists_cons_of_ne_nil hne
  exact ⟨⟨head.label, .ofNat e.2, e.1⟩, ⟨head, by rw [hcons]; rfl, rfl⟩, rfl, rfl⟩

/-- **A body can be converted exactly if it is well formed.** -/
theorem succeeds_convertBody {base : Code.Method} :
    Succeeds (b.convert dialect base) ↔ b.WellFormed dialect := by
  unfold Succeeds
  simp only [convert_eq_ok]
  constructor
  · rintro ⟨out, drafts, phis, h⟩
    obtain ⟨hknown, hwell⟩ := (exists_draftsBlocks h.distinct).mp ⟨drafts, h.drafted⟩
    refine ⟨h.distinct, h.nonempty, hknown, h.once, h.edges, hwell, fun hd => ?_⟩
    have hresolved := h.resolved
    rw [if_pos (hasPhis_eq_true.mpr hd)] at hresolved
    exact exists_resolvesPhi.mp ⟨phis, hresolved⟩
  · intro h
    obtain ⟨drafts, hdrafts⟩ := (exists_draftsBlocks h.distinct).mpr ⟨h.known, h.instructions⟩
    have hphis : ∃ phis, if dialect.hasPhis then
        List.Forall₂ (ResolvesPhi b) (assignedPhis b) phis else phis = [] := by
      by_cases hd : dialect.hasPhis = true
      · simp only [if_pos hd]
        exact exists_resolvesPhi.mpr (h.phis (hasPhis_eq_true.mp hd))
      · simp only [if_neg hd]
        exact ⟨[], rfl⟩
    obtain ⟨phis, hphis⟩ := hphis
    -- No block is empty, so none of the lists is.
    have hfilled : ∀ ss ∈ drafts.map (withSources phis), ss ≠ [] := by
      intro ss hss
      obtain ⟨draft, hdraft, rfl⟩ := List.mem_map.mp hss
      obtain ⟨raw, hraw, hdrafted⟩ := forall₂_mem_left hdrafts hdraft
      have hlen := List.Forall₂.length_eq hdrafted
      have hpos := List.length_pos_iff.mpr (h.nonempty raw hraw)
      refine List.length_pos_iff.mp ?_
      rw [withSources_eq, List.length_map]
      omega
    obtain ⟨blocks, hblocks⟩ := exists_makesBlock hfilled
    let out : Code.Method := { base with
      blocks
      successors := edgeMap (b.blocks.map fun block => indexList block.successors)
      exceptionalPredecessors :=
        edgeMap (b.blocks.map fun block => indexList block.exceptionalPredecessors) }
    exact ⟨out, drafts, phis, {
      distinct := h.distinct
      nonempty := h.nonempty
      once := h.once
      edges := h.edges
      drafted := hdrafts
      resolved := hphis
      blocks := hblocks
      method := rfl }⟩

end Body

theorem succeeds_attributes {word : UInt32} :
    Succeeds (attributes word) ↔
      ∀ n < 32, word.toNat.testBit n = true → ∃ e ∈ Code.Attribute.bits, e.1.toNat = 1 <<< n := by
  rw [← Code.Attribute.unknownBits_eq_zero]
  unfold attributes
  by_cases h : Code.Attribute.unknownBits word = 0
  · simp [h]
  · simp [h]

/-- **A method can be converted exactly if it is well formed.** -/
theorem exists_convert_iff {m : Dump.Method} {dialect : Dialect} {className : String} :
    (∃ out, m.convert dialect className = .ok out) ↔ m.WellFormed dialect := by
  show Succeeds (m.convert dialect className) ↔ _
  unfold Dump.Method.convert
  rw [succeeds_bind_const (p := ∀ b, m.body = some b → b.WellFormed dialect) fun declared => ?_,
    succeeds_attributes]
  · exact ⟨fun ⟨hbits, hwell⟩ => ⟨hbits, hwell⟩, fun h => ⟨h.modifiers, h.body⟩⟩
  · cases m.body with
    | none => simp
    | some b => simp [succeeds_convertBody]

end BytecodeIR.Conversion
