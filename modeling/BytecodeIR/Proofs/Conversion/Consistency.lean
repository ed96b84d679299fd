/-
How far a converted method is consistent.

Everything about it is in place except, perhaps, where its branches go.  The
three ways in which a dump refers to something are resolved in three different
tables.  Edges are looked up among the blocks and phi sources among the listed
instructions, so both end within the method.  A branch is looked up among all
instructions of the body, and there may be some that no block lists; these have
a label, but no statement carries it.

So a converted method passes its check exactly if the body never goes from an
instruction that is listed to one that is not.  The last part is a body that
does, and it is converted all the same.
-/
import BytecodeIR.Proofs.Conversion.Structure

namespace BytecodeIR

/-- Every instruction that a listed instruction goes to is listed too. -/
def Dump.Body.JumpsPlaced (b : Dump.Body) : Prop :=
  ∀ i ∈ b.instructions, i.id ∈ b.placed → ∀ id ∈ i.jumps, id ∈ b.placed

instance (b : Dump.Body) : Decidable b.JumpsPlaced :=
  inferInstanceAs (Decidable (∀ i ∈ b.instructions, i.id ∈ b.placed → ∀ id ∈ i.jumps, id ∈ b.placed))

namespace Conversion

open Code (BlockIndex EdgeMap Label PhiArg Statement Value)
open Dump (Body InstructionId)

/-! ### Relations stay within the method -/

theorem within_edgeMap {count : Nat} {lists : List (List BlockIndex)}
    (hlen : lists.length ≤ UInt32.size) (hcount : lists.length ≤ count)
    (h : ∀ list ∈ lists, ∀ index ∈ list, index.toNat < count) :
    (edgeMap lists).Within count := by
  rintro ⟨source, ends⟩ hentry
  have hget := (SortedMap.get?_eq_some (k := source)).mpr hentry
  obtain ⟨hends, hne⟩ := (get?_edgeMap hlen).mp hget
  have hsource : source.toNat < lists.length := (List.getElem?_eq_some_iff.mp hends).1
  refine ⟨hne, fun index hindex => ?_⟩
  rcases List.mem_cons.mp hindex with rfl | hindex
  · exact Nat.lt_of_lt_of_le hsource hcount
  · exact h ends (List.mem_of_getElem? hends) index hindex

theorem within_edgeMap_indexList {blocks : List Dump.Block} (f : Dump.Block → List UInt64)
    (hlen : blocks.length ≤ UInt32.size)
    (h : ∀ block ∈ blocks, ∀ position ∈ f block, position.toNat < blocks.length) :
    (edgeMap (blocks.map fun block => indexList (f block))).Within blocks.length := by
  refine within_edgeMap (by rwa [List.length_map]) (by rw [List.length_map]) ?_
  intro list hlist index hindex
  obtain ⟨block, hblock, rfl⟩ := List.mem_map.mp hlist
  obtain ⟨position, hposition, rfl⟩ := List.mem_map.mp hindex
  have hlt := h block hblock position hposition
  rwa [show (BlockIndex.ofNat position.toNat).toNat = position.toNat from
    UInt32.toNat_ofNat_of_lt' (Nat.lt_of_lt_of_le hlt hlen)]

namespace Converted

variable {b : Body} {dialect : Dialect} {base out : Code.Method}
  {drafts : List (List Statement)} {phis : List (Label × List (PhiArg Value))}

/-! ### Phi sources stay within the method -/

/-- A source that was found comes from a block of the body. -/
theorem source_lt (h : Converted b dialect base out drafts phis) {l : Label}
    {args : List (PhiArg Value)} (hargs : (l, args) ∈ phis) {a : PhiArg Value} (ha : a ∈ args) :
    a.block.toNat < b.blocks.length := by
  have hresolved := h.resolved
  by_cases hd : dialect.hasPhis = true
  · rw [if_pos hd] at hresolved
    obtain ⟨e, -, -, hsources⟩ := forall₂_mem_left hresolved hargs
    obtain ⟨s, -, hs⟩ := forall₂_mem_left hsources ha
    obtain ⟨k, block, hk, -, hindex⟩ := lookup_placement_mem (phiArg_eq_ok.mp hs).1
    have hlt := (List.getElem?_eq_some_iff.mp hk).1
    rw [← hindex, toNat_ofNat_index h.length_le hlt]
    exact hlt
  · rw [if_neg hd] at hresolved
    rw [hresolved] at hargs
    cases hargs

/-- The sources in a statement are those that were put in. -/
theorem sourcesWithin (h : Converted b dialect base out drafts phis) {s : Statement}
    (hs : s ∈ out.statements) : s.SourcesWithin out.blocks.length := by
  intro args hargs a ha
  rw [h.length_blocks]
  obtain ⟨block, hblock, hs⟩ := Code.Method.mem_statements.mp hs
  obtain ⟨k, hk⟩ := List.getElem?_of_mem hblock
  obtain ⟨ss, hss, hmade⟩ := h.makesBlock hk
  rw [hmade.2.2, withSources_eq] at hs
  obtain ⟨d, hd, rfl⟩ := List.mem_map.mp hs
  obtain ⟨raw, -, hdrafts⟩ := forall₂_exists_left h.drafted hss
  obtain ⟨id, -, hid⟩ := forall₂_mem_left hdrafts hd
  unfold putSources at hargs
  cases hlookup : phis.lookup d.label with
  | some args' =>
      rw [hlookup] at hargs
      rw [Code.Action.phiArgs?_withPhiArgs hargs] at ha
      exact h.source_lt (Dump.mem_of_lookup hlookup) ha
  | none =>
      -- The statement was made without sources.
      rw [hlookup] at hargs
      rw [← hid.withPhiArgs_nil] at hargs
      rw [Code.Action.phiArgs?_withPhiArgs hargs] at ha
      cases ha

/-- **Everything about a converted method is in place.** -/
theorem arranged (h : Converted b dialect base out drafts phis) : out.Arranged where
  index := fun k block hblock => h.index_toNat hblock
  headed := fun block hblock => h.headed hblock
  distinct := h.mirrors.nodup_labels h.distinct h.once
  successors := by
    rw [h.length_blocks, h.method]
    exact within_edgeMap_indexList _ h.length_le fun block hblock position hposition =>
      h.edges block hblock position (List.mem_append_left _ hposition)
  exceptionalPredecessors := by
    rw [h.length_blocks, h.method]
    exact within_edgeMap_indexList _ h.length_le fun block hblock position hposition =>
      h.edges block hblock position (List.mem_append_right _ hposition)
  sources := fun s hs => h.sourcesWithin hs

end Converted

/-! ### Branches -/

namespace Mirrors

variable {b : Body} {dialect : Dialect} {out : Code.Method}

/-- A statement goes to a label that the method lacks only if its instruction goes to one that is
not listed. -/
theorem jump_of_target (h : Mirrors b dialect out) (hb : b.DistinctHandles) {s : Statement}
    (hs : s ∈ out.statements) {l : Label} (hl : l ∈ s.targets) (hout : l ∉ out.labels) :
    ∃ i ∈ b.instructions, i.id ∈ b.placed ∧ b.StandsAt i.id s.label.toNat ∧
      ∃ id ∈ i.jumps, b.StandsAt id l.toNat ∧ id ∉ b.placed := by
  obtain ⟨id, hid, hmirrors⟩ := forall₂_mem_left h.statements hs
  obtain ⟨i, hi, htargets⟩ := hmirrors.targets
  obtain ⟨hmem, rfl⟩ := Body.mem_of_instruction? hi
  obtain ⟨target, htarget, hstands⟩ := forall₂_mem_left htargets hl
  refine ⟨i, hmem, hid, hmirrors.label, target, htarget, hstands, fun hplaced => hout ?_⟩
  obtain ⟨l', hl', hstands'⟩ := forall₂_mem_right h.labels hplaced
  rw [label_unique hb hstands hstands']
  exact hl'

/-- **Branches resolve exactly if listed instructions go to listed ones only.** -/
theorem branchesResolve (h : Mirrors b dialect out) (hb : b.DistinctHandles) :
    out.BranchesResolve ↔ b.JumpsPlaced := by
  constructor
  · intro hbranches i hi hplaced target htarget
    obtain ⟨s, hs, hmirrors⟩ := forall₂_mem_right h.statements hplaced
    obtain ⟨i', hi', htargets⟩ := hmirrors.targets
    rw [Body.instruction?_id hb hi] at hi'
    obtain rfl : i = i' := Option.some.inj hi'
    obtain ⟨l, hl, hstands⟩ := forall₂_mem_right htargets htarget
    obtain ⟨id, hid, hstands'⟩ := forall₂_mem_left h.labels (hbranches s hs l hl)
    rw [hstands.handle_unique hstands']
    exact hid
  · intro hjumps s hs l hl
    by_contra hout
    obtain ⟨i, hi, hplaced, -, target, htarget, -, hnot⟩ := h.jump_of_target hb hs hl hout
    exact hnot (hjumps i hi hplaced target htarget)

end Mirrors

/-! ### The check of a converted method -/

/-- A method without a body has nothing that could be out of place. -/
theorem check_withoutBody {className name : String} {params : List String} {returnType : String}
    {attributes : List Code.Attribute} {exceptions : List String} :
    (Code.Method.withoutBody className name params returnType attributes exceptions).check =
      .ok () := rfl

/-- **A converted method is in order except that it may branch to instructions which no block
lists: it passes its check exactly if there is no such branch, and the check names one if there
is.** -/
theorem convert_check {m : Dump.Method} {dialect : Dialect} {className : String}
    {out : Code.Method} (h : m.convert dialect className = .ok out) :
    out.Arranged ∧ (out.check = .ok () ↔ ∀ b, m.body = some b → b.JumpsPlaced) ∧
      ∀ flaw, out.check = .error flaw →
        ∃ b i id l target, m.body = some b ∧ i ∈ b.instructions ∧ i.id ∈ b.placed ∧
          b.StandsAt i.id l.toNat ∧ id ∈ i.jumps ∧ b.StandsAt id target.toNat ∧ id ∉ b.placed ∧
          flaw = .danglingBranch l target := by
  obtain ⟨declared, -, h⟩ := bind_eq_ok.mp h
  cases hbody : m.body with
  | none =>
      simp only [hbody] at h
      cases h
      refine ⟨(Code.Method.check_eq_ok.mp check_withoutBody).1,
        iff_of_true check_withoutBody ?_, ?_⟩
      · intro b hb
        cases hb
      · intro flaw hflaw
        rw [check_withoutBody] at hflaw
        cases hflaw
  | some b =>
      simp only [hbody] at h
      obtain ⟨drafts, phis, hconverted⟩ := convert_eq_ok.mp h
      have hmirrors := hconverted.mirrors
      have harranged := hconverted.arranged
      have hbranches := hmirrors.branchesResolve hconverted.distinct
      refine ⟨harranged, ?_, fun flaw hflaw => ?_⟩
      · rw [Code.Method.check_eq_ok, hbranches]
        simp [harranged]
      · obtain ⟨s, hs, l, hl, hout, rfl⟩ :=
          Code.Method.check_eq_error_of_arranged harranged hflaw
        obtain ⟨i, hi, hplaced, hstands, id, hid, htarget, hnot⟩ :=
          hmirrors.jump_of_target hconverted.distinct hs hl hout
        exact ⟨b, i, id, s.label, l, rfl, hi, hplaced, hstands, hid, htarget, hnot, rfl⟩

theorem convert_check_spin : ∃ out, spin.convert .singleAssignment "Main" = .ok out ∧
    out.check = .ok () := by
  refine ⟨_, rfl, ?_⟩
  refine (convert_check (show spin.convert .singleAssignment "Main" = _ from rfl)).2.1.mpr ?_
  intro b hb
  cases hb
  decide

/-- A body whose only block jumps to an instruction that no block lists. -/
def strayBody : Body where
  instructions :=
    [{ Dump.Instruction.ofKind ⟨0⟩ "JGotoStmt" with target := some ⟨1⟩ },
      Dump.Instruction.ofKind ⟨1⟩ "JReturnVoidStmt"]
  blocks := [⟨[⟨0⟩], [], []⟩]

/-- The method with the body `strayBody`. -/
def stray : Dump.Method := ⟨"stray", [], "void", 9, [], some strayBody⟩

/-- **A method that is converted need not pass its check.** -/
theorem convert_check_stray : ∃ out, stray.convert .plain "Main" = .ok out ∧
    out.check = .error (.danglingBranch ⟨0⟩ ⟨1⟩) := ⟨_, rfl, rfl⟩

end Conversion

end BytecodeIR
