/-
Every phi gets exactly its own sources.

The second pass files the sources of each phi under the label of its assignment,
and putting them in looks every statement up by its label.  Two things make this
exact.  A label is the position of one instruction, so what is found under the
label of a statement was filed for the instruction that the statement was made of,
and nothing is found for an instruction that assigns no phi.  And the notes of the
first pass list every placed instruction once, so a source is found in one block
only, wherever that block stands and in whatever order the blocks come.
-/
import BytecodeIR.Proofs.Conversion.Acceptance

namespace BytecodeIR

namespace Dump

/-- An instruction assigns a phi. -/
def Instruction.AssignsPhi (i : Instruction) (right : Operand) : Prop :=
  InstructionKind.ofName? i.kind = some .assign ∧ i.right = some right ∧ right.IsPhi

end Dump

namespace Conversion

open Code (BlockIndex Label PhiArg Statement Value)
open Dump (Body Instruction InstructionId InstructionKind Operand)

/-! ### What it means for a phi to be resolved -/

/-- A source of a phi is resolved: its value is converted, and its block is the one block that lists
the instruction which the source names. -/
structure ResolvesSource (b : Body) (s : Dump.PhiSource Operand) (arg : PhiArg Value) : Prop where
  value : s.value.convert = .ok arg.value
  block : ∀ k, (∃ raw, b.blocks[k]? = some raw ∧ s.origin ∈ raw.instructions) ↔
    arg.block.toNat = k

/-- The phis of a statement are resolved as those of its instruction. -/
structure Resolves (b : Body) (i : Instruction) (s : Statement) : Prop where
  /-- The statement of an assignment of a phi assigns one with the same sources, in order. -/
  sources : ∀ right, i.AssignsPhi right → ∃ left args,
    slotValue i "left" i.left = .ok left ∧
      s.action = .assign left (.ofExpr (.phi right.slots.ty args)) ∧
        List.Forall₂ (ResolvesSource b) right.slots.phiSources args
  /-- Any other statement is what the first pass made of the instruction. -/
  unchanged : (∀ right, ¬ i.AssignsPhi right) → statement b i .singleAssignment = .ok s
  /-- A phi without sources is one that has none in the dump. -/
  complete : s.action.phiArgs? = some [] →
    ∃ right, i.AssignsPhi right ∧ right.slots.phiSources = []

/-! ### The block of a source -/

section Sources

variable {b : Body}

/-- An instruction that is listed once lies in one block. -/
theorem block_unique (honce : b.placed.Nodup) {id : InstructionId} {k l : Nat}
    {raw raw' : Dump.Block} (hk : b.blocks[k]? = some raw) (hid : id ∈ raw.instructions)
    (hl : b.blocks[l]? = some raw') (hid' : id ∈ raw'.instructions)
    (hlen : b.blocks.length ≤ UInt32.size) : k = l := by
  have hmem : (id, BlockIndex.ofNat k) ∈ placement b := mem_placement.mpr ⟨k, raw, hk, hid, rfl⟩
  have hmem' : (id, BlockIndex.ofNat l) ∈ placement b := mem_placement.mpr ⟨l, raw', hl, hid', rfl⟩
  have hsame := List.inj_on_of_nodup_map (distinct_placement.mpr honce) hmem hmem' rfl
  have hindex : BlockIndex.ofNat k = BlockIndex.ofNat l := (Prod.mk.inj hsame).2
  have hk' := toNat_ofNat_index hlen (List.getElem?_eq_some_iff.mp hk).1
  have hl' := toNat_ofNat_index hlen (List.getElem?_eq_some_iff.mp hl).1
  rw [← hk', hindex, hl']

/-- **What is noted about an instruction is the one block that lists it.** -/
theorem resolvesSource (honce : b.placed.Nodup) (hlen : b.blocks.length ≤ UInt32.size)
    {here : Label} {s : Dump.PhiSource Operand} {arg : PhiArg Value}
    (h : phiArg (placement b) here s = .ok arg) : ResolvesSource b s arg := by
  obtain ⟨hlookup, hvalue⟩ := phiArg_eq_ok.mp h
  obtain ⟨k, raw, hk, hid, hindex⟩ := lookup_placement_mem hlookup
  have hblock : arg.block.toNat = k := by
    rw [← hindex]
    exact toNat_ofNat_index hlen (List.getElem?_eq_some_iff.mp hk).1
  refine ⟨hvalue, fun l => ⟨?_, ?_⟩⟩
  · rintro ⟨raw', hl, hid'⟩
    rw [hblock]
    exact block_unique honce hk hid hl hid' hlen
  · intro hl
    obtain rfl : k = l := hblock.symm.trans hl
    exact ⟨raw, hk, hid⟩

end Sources

/-! ### What is found under a label -/

section Lookup

variable {b : Body} {phis : List (Label × List (PhiArg Value))} {i : Instruction} {l : Label}
  {args : List (PhiArg Value)}

/-- What is filed under the label of an instruction was filed for that instruction. -/
theorem sources_of_lookup (hb : b.DistinctHandles)
    (h : List.Forall₂ (ResolvesPhi b) (assignedPhis b) phis) (hi : i ∈ b.instructions)
    (hl : b.StandsAt i.id l.toNat) (hlookup : phis.lookup l = some args) :
    ∃ sources, phiSources? i = some sources ∧
      List.Forall₂ (fun s arg => phiArg (placement b) l s = .ok arg) sources args := by
  obtain ⟨e, he, hlabel, hargs⟩ := forall₂_mem_left h (Dump.mem_of_lookup hlookup)
  obtain ⟨j, hj, hsources⟩ := List.mem_filterMap.mp he
  obtain ⟨sources, hsome, rfl⟩ := Option.map_eq_some_iff.mp hsources
  have hid : j.id = i.id := ((label_eq_ok hb).mp hlabel).handle_unique hl
  have hsame : b.instruction? i.id = some j := by
    rw [← hid]
    exact Body.instruction?_id hb hj
  rw [Body.instruction?_id hb hi] at hsame
  obtain rfl : i = j := Option.some.inj hsame
  exact ⟨sources, hsome, hargs⟩

/-- For an instruction that assigns a phi something is filed. -/
theorem lookup_ne_none (hb : b.DistinctHandles)
    (h : List.Forall₂ (ResolvesPhi b) (assignedPhis b) phis) (hi : i ∈ b.instructions)
    (hl : b.StandsAt i.id l.toNat) {sources : List (Dump.PhiSource Operand)}
    (hsources : phiSources? i = some sources) : phis.lookup l ≠ none := by
  have hmem : (i.id, sources) ∈ assignedPhis b := by
    refine List.mem_filterMap.mpr ⟨i, hi, ?_⟩
    rw [hsources]
    rfl
  obtain ⟨r, hr, hlabel, -⟩ := forall₂_mem_right h hmem
  have hkey : r.1 = l := label_unique hb ((label_eq_ok hb).mp hlabel) hl
  intro hnone
  have hall := List.lookup_eq_none_iff.mp hnone r hr
  simp [hkey] at hall

end Lookup

/-! ### One statement -/

section Statement

variable {b : Body} {i : Instruction} {s : Statement}

/-- The first pass makes an assignment of a phi without sources. -/
theorem statement_of_assignsPhi {right : Operand} (hphi : i.AssignsPhi right)
    (h : statement b i .singleAssignment = .ok s) :
    ∃ left, slotValue i "left" i.left = .ok left ∧
      s.action = .assign left (.ofExpr (.phi right.slots.ty [])) := by
  obtain ⟨hkind, hright, hisPhi⟩ := hphi
  obtain ⟨here, kind, a, -, hkind', ha, rfl⟩ := statement_eq_ok.mp h
  obtain rfl : kind = .assign := Option.some.inj (hkind'.symm.trans hkind)
  cases denotes_of_action ha with
  | assign hleft ho hassigned =>
      obtain rfl := Option.some.inj (ho.symm.trans hright)
      have hvalue : assigned .singleAssignment here _ = .ok (.ofExpr (.phi _ [])) :=
        if_pos (isPhi_eq_true.mpr hisPhi)
      obtain rfl := Except.ok.inj (hassigned.symm.trans hvalue)
      exact ⟨_, hleft, rfl⟩

/-- Only the statement of an instruction that assigns a phi assigns one. -/
theorem exists_assignsPhi (h : statement b i .singleAssignment = .ok s)
    {args : List (PhiArg Value)} (hargs : s.action.phiArgs? = some args) :
    ∃ right, i.AssignsPhi right := by
  obtain ⟨here, kind, a, -, hkind, ha, rfl⟩ := statement_eq_ok.mp h
  rcases a.phi_or_unchanged with ⟨left, ty, sources, rfl⟩ | ⟨hnone, -⟩
  · cases denotes_of_action ha with
    | @assign _ _ o hleft ho hassigned =>
        refine ⟨o, hkind, ho, ?_⟩
        by_contra hno
        unfold assigned at hassigned
        rw [if_neg fun hphi => hno (isPhi_eq_true.mp hphi)] at hassigned
        exact absurd (convert_ne_phi hassigned) (by simp [Code.Expr.isPhi])
  · have hsome : a.phiArgs? = some args := hargs
    rw [hnone] at hsome
    cases hsome

/-- **The second pass puts into a statement the sources of its own phi, and leaves a statement
without a phi alone.** -/
theorem Converted.resolves {base out : Code.Method} {drafts : List (List Statement)}
    {phis : List (Label × List (PhiArg Value))}
    (h : Converted b .singleAssignment base out drafts phis) (hi : i ∈ b.instructions)
    (hs : statement b i .singleAssignment = .ok s) : Resolves b i (putSources phis s) := by
  have hresolved : List.Forall₂ (ResolvesPhi b) (assignedPhis b) phis := h.resolved
  have hl : b.StandsAt i.id s.label.toNat := by
    obtain ⟨here, kind, a, hlabel, -, -, rfl⟩ := statement_eq_ok.mp hs
    exact (label_eq_ok h.distinct).mp hlabel
  have hsources : ∀ right, i.AssignsPhi right → ∃ left args,
      slotValue i "left" i.left = .ok left ∧
        (putSources phis s).action = .assign left (.ofExpr (.phi right.slots.ty args)) ∧
          List.Forall₂ (ResolvesSource b) right.slots.phiSources args := by
    intro right hphi
    obtain ⟨left, hleft, haction⟩ := statement_of_assignsPhi hphi hs
    have hsome : phiSources? i = some right.slots.phiSources :=
      phiSources?_eq_some.mpr ⟨hphi.1, right, hphi.2.1, hphi.2.2, rfl⟩
    obtain ⟨args, hargs⟩ := Option.ne_none_iff_exists'.mp
      (lookup_ne_none h.distinct hresolved hi hl hsome)
    obtain ⟨sources, hsome', hfound⟩ := sources_of_lookup h.distinct hresolved hi hl hargs
    obtain rfl := Option.some.inj (hsome'.symm.trans hsome)
    refine ⟨left, args, hleft, ?_, hfound.imp fun _ _ => resolvesSource h.once h.length_le⟩
    unfold putSources
    rw [hargs]
    show s.action.withPhiArgs args = _
    rw [haction]
    rfl
  have hunchanged : (∀ right, ¬ i.AssignsPhi right) → putSources phis s = s := by
    intro hno
    unfold putSources
    cases hargs : phis.lookup s.label with
    | none => rfl
    | some args =>
        obtain ⟨sources, hsome, -⟩ := sources_of_lookup h.distinct hresolved hi hl hargs
        obtain ⟨hkind, right, hright, hphi, -⟩ := phiSources?_eq_some.mp hsome
        exact absurd ⟨hkind, hright, hphi⟩ (hno right)
  refine ⟨hsources, fun hno => ?_, fun hempty => ?_⟩
  · rw [hunchanged hno]
    exact hs
  · by_cases hphi : ∃ right, i.AssignsPhi right
    · obtain ⟨right, hphi⟩ := hphi
      obtain ⟨left, args, -, haction, hargs⟩ := hsources right hphi
      rw [haction] at hempty
      obtain rfl : args = [] := Option.some.inj hempty
      exact ⟨right, hphi, List.forall₂_nil_right_iff.mp hargs⟩
    · rw [hunchanged fun right hright => hphi ⟨right, hright⟩] at hempty
      exact absurd (exists_assignsPhi hs hempty) hphi

end Statement

/-! ### Whole bodies -/

/-- **Every statement of a converted method has the phi of the instruction that is listed in its
place, with the same sources in the same order, each from the one block that lists it; and a
statement without a phi is as the first pass made it.** -/
theorem convert_resolves {m : Dump.Method} {b : Body} {className : String} {out : Code.Method}
    (hbody : m.body = some b) (h : m.convert .singleAssignment className = .ok out) :
    List.Forall₂ (fun raw block => List.Forall₂
      (fun id s => ∃ i, b.instruction? id = some i ∧ Resolves b i s)
        raw.instructions block.statements) b.blocks out.blocks := by
  obtain ⟨declared, -, h⟩ := bind_eq_ok.mp h
  simp only [hbody] at h
  obtain ⟨drafts, phis, hconverted⟩ := convert_eq_ok.mp h
  refine hconverted.statements_of_instructions.imp fun raw block hblock => ?_
  refine hblock.imp fun id s hs => ?_
  obtain ⟨i, draft, hi, hdraft, rfl⟩ := hs
  exact ⟨i, hi, hconverted.resolves (Body.mem_of_instruction? hi).1 hdraft⟩

/-- The phi of `spin` takes one value from the block before it and one from its own. -/
theorem convert_resolves_spin : ∃ out, spin.convert .singleAssignment "Main" = .ok out ∧
    List.Forall₂ (fun raw block => List.Forall₂
      (fun id s => ∃ i, spinBody.instruction? id = some i ∧ Resolves spinBody i s)
        raw.instructions block.statements) spinBody.blocks out.blocks ∧
    out.statements.map (·.action.phiArgs?) =
      [none, some [⟨.of (.intConstant "int" 0), ⟨0⟩⟩, ⟨.localVariable "i" "int", ⟨1⟩⟩], none] :=
  ⟨_, rfl, convert_resolves (show spin.body = some spinBody from rfl) rfl, rfl⟩

end Conversion

end BytecodeIR
