/-
Every label and every index is the position that it stands for.

Labels and indices are words of 32 bits and positions are not, and no step of the
conversion asks whether a position fits into the word that is made of it.  What the
steps do ask is enough.  Handles are words of 32 bits too: where none stands twice
there are no more instructions than labels.  A block lists an instruction, and no
instruction is listed twice, so where the first pass succeeds there are no more
blocks than handles, and an edge goes to one of these blocks or is refused.

`PositionsFit` says this of everything that a first pass leads to: of the notes
about where instructions lie, of the blocks, and of the edges between them.
-/
import BytecodeIR.Proofs.Conversion.Phi

namespace BytecodeIR.Conversion

open Code (BlockIndex Label Statement)
open Dump (Body Instruction InstructionId)

/-- The indices that are made of the positions of blocks, after the first pass over a body, are
these positions. -/
structure PositionsFit (b : Body) (drafts : List (List Statement)) (placed : Placement) : Prop where
  length_le : b.blocks.length ≤ UInt32.size
  /-- An instruction is noted under the position of the block that lists it. -/
  noted : ∀ id index, placed.lookup id = some index ↔
    ∃ block, b.blocks[index.toNat]? = some block ∧ id ∈ block.instructions
  /-- The blocks that are made have their positions as indices, whatever phi sources are put in. -/
  built : ∀ phis blocks, Conversion.blocks (drafts.map (withSources phis)) = .ok blocks →
    ∀ (k : Nat) (block : Code.Block), blocks[k]? = some block → block.index.toNat = k
  /-- An edge goes to the block that the dump names. -/
  ends : ∀ positions found, indices b.blocks.length positions = .ok found →
    found.map (·.toNat) = positions.map (·.toNat)
  /-- The edges of a block are found under its position. -/
  keys : ∀ lists : List (List BlockIndex), lists.length = b.blocks.length → ∀ index found,
    (edgeMap lists).get? index = some found ↔ lists[index.toNat]? = some found ∧ found ≠ []

/-! ### Instructions -/

/-- The label of the instruction at a position is the position. -/
theorem label_of_getElem? {b : Body} (hb : b.DistinctHandles) {k : Nat} {i : Instruction}
    (hk : b.instructions[k]? = some i) :
    k < UInt32.size ∧ ∃ l, label b i.id = .ok l ∧ l.toNat = k := by
  have hstands : b.StandsAt i.id k := by
    show (b.instructions.map (·.id))[k]? = some i.id
    rw [List.getElem?_map, hk]
    rfl
  obtain ⟨l, hl⟩ := exists_label.mpr hstands.mem
  have hposition : l.toNat = k := ((label_eq_ok hb).mp hl).position_unique hb hstands
  exact ⟨hstands.lt_size hb, l, hl, hposition⟩

/-! ### Blocks -/

/-- The index that is noted for an instruction is the position of the block that lists it. -/
theorem lookup_placement_eq_some {b : Body} (honce : b.placed.Nodup)
    (hlen : b.blocks.length ≤ UInt32.size) {id : InstructionId} {index : BlockIndex} :
    (placement b).lookup id = some index ↔
      ∃ block, b.blocks[index.toNat]? = some block ∧ id ∈ block.instructions := by
  have hposition : ∀ {index}, (placement b).lookup id = some index →
      ∃ block, b.blocks[index.toNat]? = some block ∧ id ∈ block.instructions := by
    intro index h
    obtain ⟨k, block, hk, hid, rfl⟩ := lookup_placement_mem h
    rw [toNat_ofNat_index hlen (List.getElem?_eq_some_iff.mp hk).1]
    exact ⟨block, hk, hid⟩
  refine ⟨hposition, ?_⟩
  rintro ⟨block, hblock, hid⟩
  have hplaced : id ∈ b.placed := Body.mem_placed.mpr ⟨block, List.mem_of_getElem? hblock, hid⟩
  obtain ⟨noted, hnoted⟩ := Option.isSome_iff_exists.mp (lookup_placement_isSome.mpr hplaced)
  obtain ⟨block', hblock', hid'⟩ := hposition hnoted
  have hsame : noted.toNat = index.toNat := block_unique honce hblock' hid' hblock hid hlen
  rw [hnoted, show noted = index from congrArg BlockIndex.mk (UInt32.toNat_inj.mp hsame)]

/-- Blocks that are made of lists of statements are counted from zero. -/
theorem index_of_blocks {lists : List (List Statement)} {blks : List Code.Block}
    (h : Conversion.blocks lists = .ok blks) {k : Nat} {block : Code.Block}
    (hk : blks[k]? = some block) : k < lists.length ∧ block.index = .ofNat k := by
  obtain ⟨e, he, hmade⟩ := forall₂_exists_left (blocks_eq_ok.mp h) hk
  rw [List.getElem?_zipIdx, Option.map_eq_some_iff] at he
  obtain ⟨ss, hss, rfl⟩ := he
  exact ⟨(List.getElem?_eq_some_iff.mp hss).1, by simpa using hmade.2.1⟩

/-- **Where the first pass succeeds the position of every block fits.** -/
theorem positionsFit_of_bodyStatements {b : Body} {dialect : Dialect}
    {drafts : List (List Statement)} {placed : Placement}
    (h : bodyStatements b dialect 0 [] b.blocks = .ok (drafts, placed)) :
    PositionsFit b drafts placed := by
  obtain ⟨hnonempty, hdrafts, hplaced, hdistinct⟩ :=
    (bodyStatements_eq_ok (show Placement.Distinct [] from List.nodup_nil)).mp h
  rw [List.append_nil] at hplaced
  obtain rfl : placed = placement b := hplaced
  have honce : b.placed.Nodup := distinct_placement.mp hdistinct
  have hlen : b.blocks.length ≤ UInt32.size := length_blocks_le hnonempty honce
  refine ⟨hlen, fun id index => lookup_placement_eq_some honce hlen, ?_, ?_, ?_⟩
  · intro phis blks hblks k block hk
    obtain ⟨hlt, hindex⟩ := index_of_blocks hblks hk
    rw [List.length_map, ← hdrafts.length_eq] at hlt
    rw [hindex, toNat_ofNat_index hlen hlt]
  · intro positions found hfound
    obtain ⟨hbound, rfl⟩ := indices_eq_ok.mp hfound
    exact map_toNat_indexList hlen hbound
  · intro lists hlists index found
    exact get?_edgeMap (hlists ▸ hlen)

/-! ### Methods -/

/-- The indices of the blocks of a converted body are their positions, in order. -/
theorem Converted.indices_eq_range {b : Body} {dialect : Dialect} {base out : Code.Method}
    {drafts : List (List Statement)} {phis : List (Label × List (Code.PhiArg Code.Value))}
    (h : Converted b dialect base out drafts phis) :
    out.blocks.map (·.index.toNat) = List.range out.blocks.length := by
  refine List.ext_getElem (by simp) fun k hk _ => ?_
  rw [List.length_map] at hk
  simpa using h.index_toNat (List.getElem?_eq_getElem hk)

/-- **No label and no index of a converted method stands for two things.** -/
theorem distinct_of_convert {m : Dump.Method} {dialect : Dialect} {className : String}
    {out : Code.Method} (h : m.convert dialect className = .ok out) :
    out.labels.Nodup ∧ (out.blocks.map (·.index)).Nodup := by
  rcases converted_of_convert h with hblocks | ⟨b, base, drafts, phis, -, hconverted⟩
  · rw [Code.Method.labels, Code.Method.statements, hblocks]
    exact ⟨List.nodup_nil, List.nodup_nil⟩
  · refine ⟨hconverted.mirrors.nodup_labels hconverted.distinct hconverted.once, ?_⟩
    refine List.Nodup.of_map BlockIndex.toNat ?_
    have hrange := hconverted.indices_eq_range
    rw [List.map_map, Function.comp_def, hrange]
    exact List.nodup_range

/-- **Positions fit into labels and indices.**  Where no handle stands twice the label of every
instruction is its position; where the first pass succeeds the index of every block is; and no two
statements of a converted method have one label, nor two of its blocks one index. -/
theorem positions_fit (b : Body) (dialect : Dialect) :
    (checkHandles b = .ok () → ∀ (k : Nat) (i : Instruction), b.instructions[k]? = some i →
      k < UInt32.size ∧ ∃ l, label b i.id = .ok l ∧ l.toNat = k) ∧
    (∀ drafts placed, bodyStatements b dialect 0 [] b.blocks = .ok (drafts, placed) →
      PositionsFit b drafts placed) ∧
    ∀ (m : Dump.Method) (className : String) (out : Code.Method), m.body = some b →
      m.convert dialect className = .ok out →
        out.labels.Nodup ∧ (out.blocks.map (·.index)).Nodup := by
  refine ⟨fun hhandles k i hk => ?_, fun drafts placed h => ?_, fun m className out _ h => ?_⟩
  · exact label_of_getElem? (checkHandles_eq_ok.mp hhandles) hk
  · exact positionsFit_of_bodyStatements h
  · exact distinct_of_convert h

/-- The instruction of `spinBody` with the handle 2 has the label 1, and the one with the handle 9
lies in block 0. -/
theorem positions_fit_spin :
    (∃ l, label spinBody ⟨2⟩ = .ok l ∧ l.toNat = 1) ∧
      ∃ drafts placed, bodyStatements spinBody .singleAssignment 0 [] spinBody.blocks =
        .ok (drafts, placed) ∧ placed.lookup ⟨9⟩ = some ⟨0⟩ := by
  obtain ⟨hlabels, hblocks, -⟩ := positions_fit spinBody .singleAssignment
  refine ⟨(hlabels rfl 1 _ rfl).2, _, _, rfl, ?_⟩
  exact ((hblocks _ _ rfl).noted ⟨9⟩ ⟨0⟩).mpr ⟨_, rfl, by decide⟩

end BytecodeIR.Conversion
