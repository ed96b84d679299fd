/-
A converted body has the structure of the body it is made of.

`Mirrors` says what is kept, and it does not mention the conversion but for one
thing: what a single instruction is converted to.  Blocks keep their order and
instructions theirs.  A label is the position of an instruction in the body, so
it has nothing to do with the order of the blocks.  A relation between blocks
keeps the lists of the dump with their order and repetitions.  All of it is read
off `Converted`; the one argument of its own is that indices do not run over, so
that the entries of an edge map are in order as they are written down.
-/
import BytecodeIR.Proofs.Code.Check
import BytecodeIR.Proofs.Conversion.Body

namespace BytecodeIR.Conversion

open Code (BlockIndex EdgeMap Label PhiArg Statement Value)
open Dump (Body InstructionId)

/-! ### What is kept

The three structures say it for one instruction, one block and one body.  Labels are
tied to positions in the body and indices to positions among the blocks, and the
relations between blocks are given with the keys of their maps, so that a block without
successors has no entry at all.
-/

/-- A statement stands for the instruction with a handle: it does what the instruction is converted
to, leaving phi sources aside, and goes where the instruction goes. -/
structure MirrorsInstruction (b : Body) (dialect : Dialect) (id : InstructionId) (s : Statement) :
    Prop where
  label : b.StandsAt id s.label.toNat
  offset : s.offset = 0
  action : ∃ i, b.instruction? id = some i ∧ statement b i dialect = .ok (s.withPhiArgs [])
  targets : ∃ i, b.instruction? id = some i ∧
    List.Forall₂ (fun target l => b.StandsAt target l.toNat) i.jumps s.targets

/-- A block of a method stands for a block of a body. -/
structure MirrorsBlock (b : Body) (dialect : Dialect) (out : Code.Method) (raw : Dump.Block)
    (block : Code.Block) : Prop where
  statements : List.Forall₂ (MirrorsInstruction b dialect) raw.instructions block.statements
  headed : block.Headed
  successors : (out.successorsOf block.index).map (·.toNat) = raw.successors.map (·.toNat)
  exceptionalPredecessors : (out.exceptionalPredecessorsOf block.index).map (·.toNat) =
    raw.exceptionalPredecessors.map (·.toNat)

/-- A method stands for a body, block by block. -/
structure Mirrors (b : Body) (dialect : Dialect) (out : Code.Method) : Prop where
  blocks : List.Forall₂ (MirrorsBlock b dialect out) b.blocks out.blocks
  index : ∀ (k : Nat) (block : Code.Block), out.blocks[k]? = some block → block.index.toNat = k
  successorKeys : ∀ index, index ∈ out.successors.keys ↔
    ∃ raw, b.blocks[index.toNat]? = some raw ∧ raw.successors ≠ []
  exceptionalKeys : ∀ index, index ∈ out.exceptionalPredecessors.keys ↔
    ∃ raw, b.blocks[index.toNat]? = some raw ∧ raw.exceptionalPredecessors ≠ []

/-! ### Edge maps

An edge map is made from the lists of all blocks in order, the empty ones left out.
Positions grow from block to block, and as long as they fit into 32 bits the indices do
too; so the map has its entries in the order in which they were put in, and what is
looked up under an index is the list at that position.
-/

section Edges

variable {lists : List (List BlockIndex)} {index : BlockIndex} {ends : List BlockIndex}

theorem compare_ofNat {i j : Nat} (hij : i < j) (hj : j < UInt32.size) :
    compare (BlockIndex.ofNat i) (BlockIndex.ofNat j) = .lt := by
  show compare (UInt32.ofNat i) (UInt32.ofNat j) = .lt
  rw [Std.compare_eq_lt, UInt32.lt_iff_toNat_lt, UInt32.toNat_ofNat_of_lt' hj,
    UInt32.toNat_ofNat_of_lt' (Nat.lt_trans hij hj)]
  exact hij

/-- The entries of an edge map, as they are written down. -/
theorem entries_edgeMap (hlen : lists.length ≤ UInt32.size) :
    (edgeMap lists).entries =
      (lists.zipIdx.filter fun e => !e.1.isEmpty).map fun e => (.ofNat e.2, e.1) := by
  refine SortedMap.entries_ofList (List.pairwise_map.mpr ?_)
  have hpositions : lists.zipIdx.Pairwise fun a b => a.2 < b.2 := by
    refine List.pairwise_map.mp ?_
    rw [List.zipIdx_map_snd]
    exact List.pairwise_lt_range'
  refine (hpositions.filter _).imp_of_mem fun {a c} _ hc hac => ?_
  have hmem := List.mem_zipIdx_iff_getElem?.mp (List.mem_of_mem_filter hc)
  have hlt := (List.getElem?_eq_some_iff.mp hmem).1
  exact compare_ofNat hac (Nat.lt_of_lt_of_le hlt hlen)

/-- **An edge map leads from a block to the list at the position of the block, unless that list is
empty.** -/
theorem get?_edgeMap (hlen : lists.length ≤ UInt32.size) :
    (edgeMap lists).get? index = some ends ↔ lists[index.toNat]? = some ends ∧ ends ≠ [] := by
  rw [SortedMap.get?_eq_some, entries_edgeMap hlen]
  simp only [List.mem_map, List.mem_filter, List.mem_zipIdx_iff_getElem?, Prod.exists,
    Prod.mk.injEq]
  constructor
  · rintro ⟨list, k, ⟨hk, hne⟩, rfl, rfl⟩
    have hlt := Nat.lt_of_lt_of_le (List.getElem?_eq_some_iff.mp hk).1 hlen
    rw [show (BlockIndex.ofNat k).toNat = k from UInt32.toNat_ofNat_of_lt' hlt]
    exact ⟨hk, by simpa using hne⟩
  · rintro ⟨hk, hne⟩
    refine ⟨ends, index.toNat, ⟨hk, by simpa using hne⟩, ?_, rfl⟩
    rcases index with ⟨w⟩
    simp [BlockIndex.ofNat, BlockIndex.toNat]

theorem mem_keys_edgeMap (hlen : lists.length ≤ UInt32.size) :
    index ∈ (edgeMap lists).keys ↔ ∃ ends, lists[index.toNat]? = some ends ∧ ends ≠ [] := by
  simp only [SortedMap.mem_keys_iff, get?_edgeMap hlen]

/-- Where nothing is stored the list is read as empty, and so it is. -/
theorem getD_edgeMap (hlen : lists.length ≤ UInt32.size) (h : lists[index.toNat]? = some ends) :
    ((edgeMap lists).get? index).getD [] = ends := by
  cases hget : (edgeMap lists).get? index with
  | some found =>
      have hfound := ((get?_edgeMap hlen).mp hget).1
      rw [h] at hfound
      exact (Option.some.inj hfound).symm
  | none =>
      by_contra hne
      have hsome := (get?_edgeMap hlen).mpr ⟨h, fun hnil => hne (hnil ▸ rfl)⟩
      rw [hget] at hsome
      cases hsome

theorem map_toNat_indexList {count : Nat} {positions : List UInt64} (hcount : count ≤ UInt32.size)
    (h : ∀ position ∈ positions, position.toNat < count) :
    (indexList positions).map (·.toNat) = positions.map (·.toNat) := by
  unfold indexList
  rw [List.map_map]
  refine List.map_congr_left fun position hposition => ?_
  exact UInt32.toNat_ofNat_of_lt' (Nat.lt_of_lt_of_le (h position hposition) hcount)

end Edges

/-! ### One statement

The second pass may put sources into a statement.  It leaves its label, its offset and
its targets alone, and taking the sources out again gives the statement of the first
pass.
-/

/-- A statement once the sources of its phi are put in, if it has any. -/
def putSources (phis : List (Label × List (PhiArg Value))) (s : Statement) : Statement :=
  match phis.lookup s.label with
  | some args => s.withPhiArgs args
  | none => s

theorem withSources_eq (phis : List (Label × List (PhiArg Value))) (ss : List Statement) :
    withSources phis ss = ss.map (putSources phis) := rfl

section Put

variable (phis : List (Label × List (PhiArg Value))) (s : Statement)

/-- Only phi sources are changed. -/
theorem putSources_eq : putSources phis s = s ∨ ∃ args, putSources phis s = s.withPhiArgs args := by
  unfold putSources
  cases phis.lookup s.label with
  | none => exact .inl rfl
  | some args => exact .inr ⟨args, rfl⟩

@[simp] theorem label_putSources : (putSources phis s).label = s.label := by
  rcases putSources_eq phis s with h | ⟨args, h⟩
  · rw [h]
  · rw [h, Statement.label_withPhiArgs]

@[simp] theorem offset_putSources : (putSources phis s).offset = s.offset := by
  rcases putSources_eq phis s with h | ⟨args, h⟩
  · rw [h]
  · rw [h, Statement.offset_withPhiArgs]

@[simp] theorem targets_putSources : (putSources phis s).targets = s.targets := by
  rcases putSources_eq phis s with h | ⟨args, h⟩
  · rw [h]
  · rw [h, Statement.targets_withPhiArgs]

@[simp] theorem withPhiArgs_putSources (args : List (PhiArg Value)) :
    (putSources phis s).withPhiArgs args = s.withPhiArgs args := by
  rcases putSources_eq phis s with h | ⟨args', h⟩
  · rw [h]
  · rw [h, Statement.withPhiArgs_withPhiArgs]

end Put

section

variable {b : Body} {dialect : Dialect} {id : InstructionId} {s : Statement}

/-- What the first pass makes of an instruction has no sources yet. -/
theorem Drafts.withPhiArgs_nil (h : Drafts b dialect id s) : s.withPhiArgs [] = s := by
  obtain ⟨i, -, hs⟩ := h
  exact withPhiArgs_nil_of_statement hs

/-- **The second pass leaves a statement standing for the instruction it was made of.** -/
theorem Drafts.mirrors (hb : b.DistinctHandles) (h : Drafts b dialect id s)
    (phis : List (Label × List (PhiArg Value))) :
    MirrorsInstruction b dialect id (putSources phis s) := by
  have hnil := h.withPhiArgs_nil
  obtain ⟨i, hi, hs⟩ := h
  obtain ⟨here, kind, a, hlabel, hkind, ha, hsa⟩ := statement_eq_ok.mp hs
  have hid : i.id = id := (Body.mem_of_instruction? hi).2
  have htargets := (denotes_of_action ha).targets hkind
  simp only [label_eq_ok hb] at hlabel htargets
  refine ⟨?_, ?_, ⟨i, hi, ?_⟩, ⟨i, hi, ?_⟩⟩
  · rw [label_putSources, ← hsa, ← hid]
    exact hlabel
  · rw [offset_putSources, ← hsa]
    rfl
  · rw [withPhiArgs_putSources, hnil, hs]
  · rw [targets_putSources, ← hsa]
    exact htargets

end

/-! ### One block, and all of them

Everything about the blocks of `out` is a matter of what stands at one position: in the
body, in the statements of the first pass, and in the method.  The three lists have one
length.
-/

namespace Converted

variable {b : Body} {dialect : Dialect} {base out : Code.Method}
  {drafts : List (List Statement)} {phis : List (Label × List (PhiArg Value))}

theorem length_le (h : Converted b dialect base out drafts phis) :
    b.blocks.length ≤ UInt32.size := length_blocks_le h.nonempty h.once

theorem length_blocks (h : Converted b dialect base out drafts phis) :
    out.blocks.length = b.blocks.length := by
  have hmade := h.blocks.length_eq
  have hdrafted := h.drafted.length_eq
  rw [List.length_zipIdx, List.length_map] at hmade
  omega

/-- A block is made of the statements that were made of the block at its position. -/
theorem makesBlock (h : Converted b dialect base out drafts phis) {k : Nat} {block : Code.Block}
    (hblock : out.blocks[k]? = some block) :
    ∃ ss, drafts[k]? = some ss ∧ MakesBlock k (withSources phis ss) block := by
  obtain ⟨e, he, hmade⟩ := forall₂_exists_left h.blocks hblock
  rw [List.getElem?_zipIdx, List.getElem?_map] at he
  obtain ⟨list, hlist, rfl⟩ := Option.map_eq_some_iff.mp he
  obtain ⟨ss, hss, rfl⟩ := Option.map_eq_some_iff.mp hlist
  exact ⟨ss, hss, by simpa using hmade⟩

/-- Every statement is that of the instruction listed in its place, with its sources put in. -/
theorem statements_of_instructions (h : Converted b dialect base out drafts phis) :
    List.Forall₂ (fun raw block => List.Forall₂
      (fun id s => ∃ i draft, b.instruction? id = some i ∧ statement b i dialect = .ok draft ∧
        s = putSources phis draft) raw.instructions block.statements) b.blocks out.blocks := by
  refine List.forall₂_iff_get.mpr ⟨h.length_blocks.symm, fun k hraw hblock => ?_⟩
  obtain ⟨ss, hss, -, -, hstatements⟩ := h.makesBlock (List.getElem?_eq_getElem hblock)
  have hdrafts : DraftsBlock b dialect _ ss :=
    forall₂_getElem? h.drafted (List.getElem?_eq_getElem hraw) hss
  show List.Forall₂ _ b.blocks[k].instructions out.blocks[k].statements
  rw [hstatements, withSources_eq, List.forall₂_map_right_iff]
  refine List.Forall₂.imp (fun id draft hdraft => ?_) hdrafts
  obtain ⟨i, hi, hdraft⟩ := hdraft
  exact ⟨i, draft, hi, hdraft, rfl⟩

theorem index (h : Converted b dialect base out drafts phis) {k : Nat} {block : Code.Block}
    (hblock : out.blocks[k]? = some block) : block.index = .ofNat k := by
  obtain ⟨ss, -, hmade⟩ := h.makesBlock hblock
  exact hmade.2.1

theorem index_toNat (h : Converted b dialect base out drafts phis) {k : Nat} {block : Code.Block}
    (hblock : out.blocks[k]? = some block) : block.index.toNat = k := by
  have hk := (List.getElem?_eq_some_iff.mp hblock).1
  rw [h.length_blocks] at hk
  rw [h.index hblock, toNat_ofNat_index h.length_le hk]

theorem headed (h : Converted b dialect base out drafts phis) {block : Code.Block}
    (hblock : block ∈ out.blocks) : block.Headed := by
  obtain ⟨k, hk⟩ := List.getElem?_of_mem hblock
  obtain ⟨ss, -, ⟨head, hhead, hlabel⟩, -, hss⟩ := h.makesBlock hk
  refine ⟨head, ?_, hlabel⟩
  unfold Code.Block.head?
  rw [hss]
  exact hhead

theorem mirrorsBlock (h : Converted b dialect base out drafts phis) {k : Nat} {raw : Dump.Block}
    {block : Code.Block} (hraw : b.blocks[k]? = some raw) (hblock : out.blocks[k]? = some block) :
    MirrorsBlock b dialect out raw block := by
  obtain ⟨ss, hss, -, -, hstatements⟩ := h.makesBlock hblock
  have hdrafts : DraftsBlock b dialect raw ss := forall₂_getElem? h.drafted hraw hss
  have hindex := h.index_toNat hblock
  have hlists : ∀ f : Dump.Block → List BlockIndex,
      (b.blocks.map f)[block.index.toNat]? = some (f raw) := by
    intro f
    rw [hindex, List.getElem?_map, hraw]
    rfl
  have hlen : ∀ f : Dump.Block → List BlockIndex, (b.blocks.map f).length ≤ UInt32.size := by
    intro f
    rw [List.length_map]
    exact h.length_le
  have hedges := h.edges raw (List.mem_of_getElem? hraw)
  rw [List.forall_mem_append] at hedges
  refine ⟨?_, h.headed (List.mem_of_getElem? hblock), ?_, ?_⟩
  · rw [hstatements, withSources_eq, List.forall₂_map_right_iff]
    exact List.Forall₂.imp (fun id s hs => hs.mirrors h.distinct phis) hdrafts
  · unfold Code.Method.successorsOf
    rw [h.method, getD_edgeMap (hlen _) (hlists _)]
    exact map_toNat_indexList h.length_le hedges.1
  · unfold Code.Method.exceptionalPredecessorsOf
    rw [h.method, getD_edgeMap (hlen _) (hlists _)]
    exact map_toNat_indexList h.length_le hedges.2

/-- **A converted body is mirrored by the method that comes out.** -/
theorem mirrors (h : Converted b dialect base out drafts phis) : Mirrors b dialect out := by
  have hkeys : ∀ (f : Dump.Block → List UInt64) (index : BlockIndex),
      index ∈ (edgeMap (b.blocks.map fun raw => indexList (f raw))).keys ↔
        ∃ raw, b.blocks[index.toNat]? = some raw ∧ f raw ≠ [] := by
    intro f index
    rw [mem_keys_edgeMap (by rw [List.length_map]; exact h.length_le), List.getElem?_map]
    simp [indexList]
  refine ⟨?_, fun k block hblock => h.index_toNat hblock, fun index => ?_, fun index => ?_⟩
  · refine List.forall₂_iff_get.mpr ⟨h.length_blocks.symm, fun k hraw hblock => ?_⟩
    exact h.mirrorsBlock (List.getElem?_eq_getElem hraw) (List.getElem?_eq_getElem hblock)
  · rw [h.method]
    exact hkeys _ index
  · rw [h.method]
    exact hkeys _ index

end Converted

/-! ### Labels

The labels of a method in order are the positions of the listed instructions in order.
Position and instruction determine each other, so labels repeat only if handles do.
-/

namespace Mirrors

variable {b : Body} {dialect : Dialect} {out : Code.Method}

/-- The statements of a method stand for the listed instructions, one by one. -/
theorem statements (h : Mirrors b dialect out) :
    List.Forall₂ (MirrorsInstruction b dialect) b.placed out.statements :=
  List.rel_flatMap h.blocks fun _ _ hblock => hblock.statements

theorem labels (h : Mirrors b dialect out) :
    List.Forall₂ (fun id l => b.StandsAt id l.toNat) b.placed out.labels := by
  unfold Code.Method.labels
  rw [List.forall₂_map_right_iff]
  exact List.Forall₂.imp (fun id s hs => hs.label) h.statements

theorem headed (h : Mirrors b dialect out) {block : Code.Block} (hblock : block ∈ out.blocks) :
    block.Headed := by
  obtain ⟨k, hk⟩ := List.getElem?_of_mem hblock
  obtain ⟨raw, -, hraw⟩ := forall₂_exists_left h.blocks hk
  exact hraw.headed

/-- **Instructions that are listed once get labels that are used once.** -/
theorem nodup_labels (h : Mirrors b dialect out) (hb : b.DistinctHandles) (honce : b.placed.Nodup) :
    out.labels.Nodup := by
  have hunique : Relator.BiUnique fun (id : InstructionId) (l : Label) =>
      b.StandsAt id l.toNat := by
    constructor
    · intro id l id' hid hid'
      exact hid.handle_unique hid'
    · intro id l l' hl hl'
      exact label_unique hb hl hl'
  exact (List.rel_nodup hunique h.labels).mp honce

end Mirrors

/-! ### The structure of a converted method -/

/-- **A converted method mirrors its body; its labels are the positions of the listed instructions,
no two of them are equal, and every block is found by its label.** -/
theorem convert_mirrors {m : Dump.Method} {b : Body} {dialect : Dialect} {className : String}
    {out : Code.Method} (hbody : m.body = some b) (h : m.convert dialect className = .ok out) :
    Mirrors b dialect out ∧
      (List.Forall₂ (fun id l => b.StandsAt id l.toNat) b.placed out.labels ∧ b.placed.Nodup ∧
        out.labels.Nodup) ∧
      ∀ block ∈ out.blocks, out.blockLabeled? block.label = some block := by
  obtain ⟨declared, -, h⟩ := bind_eq_ok.mp h
  simp only [hbody] at h
  obtain ⟨drafts, phis, hconverted⟩ := convert_eq_ok.mp h
  have hmirrors := hconverted.mirrors
  have hdistinct := hmirrors.nodup_labels hconverted.distinct hconverted.once
  exact ⟨hmirrors, ⟨hmirrors.labels, hconverted.once, hdistinct⟩, fun block hblock =>
    Code.Method.blockLabeled?_label (fun _ => hmirrors.headed) hdistinct hblock⟩

/-- A body that runs into an endless loop, its instructions listed in another order than they stand
in: a jump to the loop, and the loop, which copies a variable to itself by a phi. -/
def spinBody : Body where
  instructions :=
    let i : Dump.Operand := .of { Dump.Slots.ofKind "Local" "int" with name := some "i" }
    let zero : Dump.Operand :=
      .of { Dump.Slots.ofKind "IntConstant" "int" with value := some (.integer 0) }
    [{ Dump.Instruction.ofKind ⟨5⟩ "JAssignStmt" with
        left := some i
        right := some (.of { Dump.Slots.ofKind "SPhiExpr" "int" with
          phiSources := [⟨zero, ⟨9⟩⟩, ⟨i, ⟨2⟩⟩] }) },
      { Dump.Instruction.ofKind ⟨2⟩ "JGotoStmt" with target := some ⟨5⟩ },
      { Dump.Instruction.ofKind ⟨9⟩ "JGotoStmt" with target := some ⟨5⟩ }]
  blocks := [⟨[⟨9⟩], [1], []⟩, ⟨[⟨5⟩, ⟨2⟩], [1], [0, 0]⟩]

/-- The method with the body `spinBody`. -/
def spin : Dump.Method := ⟨"spin", [], "void", 9, [], some spinBody⟩

theorem convert_mirrors_spin : ∃ out, spin.convert .singleAssignment "Main" = .ok out ∧
    Mirrors spinBody .singleAssignment out ∧ out.labels = [⟨2⟩, ⟨0⟩, ⟨1⟩] :=
  ⟨_, rfl, (convert_mirrors (show spin.body = some spinBody from rfl) rfl).1, rfl⟩

end BytecodeIR.Conversion
