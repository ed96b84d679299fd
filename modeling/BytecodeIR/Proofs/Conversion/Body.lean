/-
What the two passes over a body come to.

Each step of the conversion of a body is characterised here by one equivalence:
it succeeds with a result exactly if the body meets the conditions that the step
checks and the result is the one described.  The first pass carries along where
the instructions lie, latest first, and refuses an instruction that it has met
before; so its notes are a list of handles without repetitions, and looking a
handle up in them finds the block that lists it.  This is the invariant that the
second pass rests on.

`Conversion` puts the steps together.  Every property of a converted body is
taken from it, and the functions themselves are not opened again.
-/
import BytecodeIR.Conversion.Class
import BytecodeIR.Proofs.Conversion.Statement
import BytecodeIR.Proofs.SortedMap

namespace BytecodeIR.Conversion

open Code (BlockIndex EdgeMap Label PhiArg Statement Value)
open Dump (Body InstructionId)

/-! ### First pass

The notes are a parameter of the induction and grow from block to block.  The condition
that handles are distinct is put on the notes that come out, since these contain the
ones before; so a handle that is met a second time contradicts it right where the pass
refuses it.
-/

/-- The statement that the first pass makes of the instruction with a handle. -/
def Drafts (b : Body) (dialect : Dialect) (id : InstructionId) (s : Statement) : Prop :=
  ∃ i, b.instruction? id = some i ∧ statement b i dialect = .ok s

/-- The statements that the first pass makes of a block. -/
def DraftsBlock (b : Body) (dialect : Dialect) (block : Dump.Block) (ss : List Statement) : Prop :=
  List.Forall₂ (Drafts b dialect) block.instructions ss

/-- No instruction is noted twice. -/
def Placement.Distinct (placed : Placement) : Prop := (placed.map (·.1)).Nodup

/-- Where the instructions of blocks lie, the blocks being counted from a position. -/
def placementFrom (position : Nat) (blocks : List Dump.Block) : Placement :=
  (blocks.zipIdx position).flatMap fun e => e.1.instructions.map (·, BlockIndex.ofNat e.2)

theorem map_fst_placementFrom (position : Nat) (blocks : List Dump.Block) :
    (placementFrom position blocks).map (·.1) = blocks.flatMap (·.instructions) := by
  induction blocks generalizing position with
  | nil => rfl
  | cons block rest ih =>
      have hrest := ih (position + 1)
      unfold placementFrom at hrest ⊢
      rw [List.zipIdx_cons, List.flatMap_cons, List.map_append, hrest]
      simp [Function.comp_def]

theorem lookup_isSome {placed : Placement} {id : InstructionId} :
    (placed.lookup id).isSome ↔ id ∈ placed.map (·.1) := by
  rw [← Option.ne_none_iff_isSome, ne_eq, List.lookup_eq_none_iff]
  simp

theorem blockStatements_eq_ok {b : Body} {dialect : Dialect} {index : BlockIndex}
    {ids : List InstructionId} {placed placed' : Placement} {ss : List Statement}
    (hp : placed.Distinct) :
    blockStatements b dialect index placed ids = .ok (ss, placed') ↔
      List.Forall₂ (Drafts b dialect) ids ss ∧
        placed' = (ids.map (·, index)).reverse ++ placed ∧ placed'.Distinct := by
  induction ids generalizing placed placed' ss with
  | nil =>
      rw [blockStatements, List.forall₂_nil_left_iff]
      constructor
      · intro h
        cases h
        exact ⟨rfl, rfl, hp⟩
      · rintro ⟨rfl, rfl, -⟩
        rfl
  | cons id rest ih =>
      rw [blockStatements]
      by_cases hmet : (placed.lookup id).isSome
      · -- The notes would have to hold the handle twice.
        rw [if_pos hmet]
        refine iff_of_false (by simp [throw, throwThe, MonadExceptOf.throw, bind, Except.bind]) ?_
        rintro ⟨-, rfl, hd⟩
        unfold Placement.Distinct at hd
        rw [List.map_append, List.nodup_append] at hd
        exact hd.2.2 id (by simp) id (lookup_isSome.mp hmet) rfl
      · rw [if_neg hmet]
        have hp' : Placement.Distinct ((id, index) :: placed) :=
          List.nodup_cons.mpr ⟨fun h => hmet (lookup_isSome.mpr h), hp⟩
        simp only [bind_eq_ok, instruction_eq_ok, Prod.exists, ih hp', List.map_cons,
          List.reverse_cons, List.append_assoc, List.singleton_append]
        constructor
        · rintro ⟨i, hi, s, hs, more, p, ⟨hmore, hp, hd⟩, h⟩
          cases h
          exact ⟨.cons ⟨i, hi, hs⟩ hmore, hp, hd⟩
        · rintro ⟨hss, hp, hd⟩
          cases hss with
          | cons hs hmore =>
              obtain ⟨i, hi, hs⟩ := hs
              exact ⟨i, hi, _, hs, _, _, ⟨hmore, hp, hd⟩, rfl⟩

/-- **The first pass succeeds exactly if no block is empty, no handle is listed twice and every
listed instruction has a statement.** -/
theorem bodyStatements_eq_ok {b : Body} {dialect : Dialect} {position : Nat}
    {blocks : List Dump.Block} {placed placed' : Placement} {drafts : List (List Statement)}
    (hp : placed.Distinct) :
    bodyStatements b dialect position placed blocks = .ok (drafts, placed') ↔
      (∀ block ∈ blocks, block.instructions ≠ []) ∧
        List.Forall₂ (DraftsBlock b dialect) blocks drafts ∧
          placed' = (placementFrom position blocks).reverse ++ placed ∧ placed'.Distinct := by
  induction blocks generalizing position placed placed' drafts with
  | nil =>
      rw [bodyStatements, List.forall₂_nil_left_iff]
      constructor
      · intro h
        cases h
        exact ⟨by simp, rfl, rfl, hp⟩
      · rintro ⟨-, rfl, rfl, -⟩
        rfl
  | cons block rest ih =>
      rw [bodyStatements]
      by_cases hempty : block.instructions = []
      · rw [if_pos (by simp [hempty])]
        refine iff_of_false (by simp [throw, throwThe, MonadExceptOf.throw, bind, Except.bind]) ?_
        rintro ⟨hall, -⟩
        exact hall block List.mem_cons_self hempty
      · rw [if_neg (by simp [hempty])]
        have hnotes : (placementFrom position (block :: rest)).reverse ++ placed =
            (placementFrom (position + 1) rest).reverse ++
              ((block.instructions.map (·, BlockIndex.ofNat position)).reverse ++ placed) := by
          simp [placementFrom, List.zipIdx_cons]
        rw [hnotes]
        simp only [bind_eq_ok, Prod.exists, blockStatements_eq_ok hp]
        constructor
        · rintro ⟨ss, p, ⟨hss, rfl, hd⟩, more, p', hmore, h⟩
          cases h
          obtain ⟨hall, hrest, hp', hd'⟩ := (ih hd).mp hmore
          exact ⟨List.forall_mem_cons.mpr ⟨hempty, hall⟩, .cons hss hrest, hp', hd'⟩
        · rintro ⟨hall, hdrafts, hp', hd'⟩
          cases hdrafts with
          | cons hss hrest =>
              have hd : Placement.Distinct
                  ((block.instructions.map (·, BlockIndex.ofNat position)).reverse ++ placed) := by
                unfold Placement.Distinct at hd' ⊢
                rw [hp', List.map_append] at hd'
                exact hd'.of_append_right
              exact ⟨_, _, ⟨hss, rfl, hd⟩, _, _, (ih hd).mpr
                ⟨(List.forall_mem_cons.mp hall).2, hrest, hp', hd'⟩, rfl⟩

/-! ### Conversions that take the same steps

The first pass looks at a body only through `draft`, and the second only through
`phiArgs`.  Two bodies that agree on these are converted alike, failures included, and a
change that a conversion does not notice is shown to be one by comparing no more than
these two.
-/

/-- What the first pass makes of a handle. -/
def draft (b : Body) (dialect : Dialect) (id : InstructionId) : Except Failure Statement :=
  instruction b id >>= fun i => statement b i dialect

/-- The first pass comes to the same if it makes the same of every handle that it meets. -/
theorem bodyStatements_congr {b b' : Body} {dialect dialect' : Dialect} (position : Nat)
    (placed : Placement) {blocks : List Dump.Block} (h : ∀ block ∈ blocks,
      ∀ id ∈ block.instructions, draft b' dialect' id = draft b dialect id) :
    bodyStatements b' dialect' position placed blocks =
      bodyStatements b dialect position placed blocks := by
  have hcons : ∀ (c : Body) (d : Dialect) index placed id rest,
      blockStatements c d index placed (id :: rest) =
        if (placed.lookup id).isSome then .error (.duplicateInstruction id)
        else draft c d id >>= fun s =>
          blockStatements c d index ((id, index) :: placed) rest >>= fun more =>
            .ok (s :: more.1, more.2) := by
    intro c d index placed id rest
    rw [blockStatements, draft, bind_assoc]
    rfl
  have hblock : ∀ index placed ids, (∀ id ∈ ids, draft b' dialect' id = draft b dialect id) →
      blockStatements b' dialect' index placed ids =
        blockStatements b dialect index placed ids := by
    intro index placed ids hids
    induction ids generalizing placed with
    | nil => rfl
    | cons id rest ih =>
        obtain ⟨hid, hrest⟩ := List.forall_mem_cons.mp hids
        rw [hcons, hcons, hid, ih _ hrest]
  induction blocks generalizing position placed with
  | nil => rfl
  | cons block rest ih =>
      obtain ⟨hfirst, hrest⟩ := List.forall_mem_cons.mp h
      simp only [bodyStatements, hblock _ _ _ hfirst, ih _ _ hrest]

/-- **Two conversions come to the same if both passes do.** -/
theorem convert_congr_body {b b' : Body} {dialect dialect' : Dialect}
    (hhandles : b'.handles = b.handles) (hblocks : b'.blocks = b.blocks)
    (hdraft : ∀ id ∈ b.placed, draft b' dialect' id = draft b dialect id)
    (hphis : ∀ placed, phiArgs b' dialect' placed = phiArgs b dialect placed)
    (base : Code.Method) : b'.convert dialect' base = b.convert dialect base := by
  have hfirst := bodyStatements_congr 0 [] fun block hblock id hid =>
    hdraft id (Body.mem_placed.mpr ⟨block, hblock, hid⟩)
  unfold Body.convert
  simp only [checkHandles_congr hhandles, hblocks, hfirst, hphis]

/-! ### Where an instruction lies

The second pass asks the notes for the block of an origin.  Since every handle stands in
them once, this comes to asking the body which block lists it.
-/

/-- The notes of the first pass over a whole body. -/
def placement (b : Body) : Placement := (placementFrom 0 b.blocks).reverse

theorem distinct_placement {b : Body} : (placement b).Distinct ↔ b.placed.Nodup := by
  unfold placement Placement.Distinct
  rw [List.map_reverse, List.nodup_reverse, map_fst_placementFrom]
  rfl

theorem mem_placement {b : Body} {id : InstructionId} {index : BlockIndex} :
    (id, index) ∈ placement b ↔
      ∃ k block, b.blocks[k]? = some block ∧ id ∈ block.instructions ∧ .ofNat k = index := by
  unfold placement placementFrom
  simp only [List.mem_reverse, List.mem_flatMap, List.mem_map, Prod.mk.injEq, Prod.exists,
    List.mem_zipIdx_iff_getElem?]
  constructor
  · rintro ⟨block, k, hk, id', hid, rfl, hindex⟩
    exact ⟨k, block, hk, hid, hindex⟩
  · rintro ⟨k, block, hk, hid, hindex⟩
    exact ⟨block, k, hk, id, hid, rfl, hindex⟩

/-- What is looked up in the notes stands in them. -/
theorem lookup_placement_mem {b : Body} {id : InstructionId} {index : BlockIndex}
    (h : (placement b).lookup id = some index) :
    ∃ k block, b.blocks[k]? = some block ∧ id ∈ block.instructions ∧ .ofNat k = index :=
  mem_placement.mp (Dump.mem_of_lookup h)

theorem lookup_placement_isSome {b : Body} {id : InstructionId} :
    ((placement b).lookup id).isSome ↔ id ∈ b.placed := by
  rw [lookup_isSome]
  unfold placement
  rw [List.map_reverse, List.mem_reverse, map_fst_placementFrom]
  rfl

/-- There are no more blocks than handles, so the position of every block fits into its index. -/
theorem length_blocks_le {b : Body} (hnonempty : ∀ block ∈ b.blocks, block.instructions ≠ [])
    (honce : b.placed.Nodup) : b.blocks.length ≤ UInt32.size := by
  refine Nat.le_trans ?_ (Dump.length_le_of_nodup honce)
  have hall : ∀ blocks : List Dump.Block, (∀ block ∈ blocks, block.instructions ≠ []) →
      blocks.length ≤ (blocks.flatMap (·.instructions)).length := by
    intro blocks
    induction blocks with
    | nil => simp
    | cons block rest ih =>
        intro h
        have hhead := List.length_pos_iff.mpr (h block List.mem_cons_self)
        have hrest := ih fun c hc => h c (List.mem_cons_of_mem _ hc)
        rw [List.flatMap_cons, List.length_append, List.length_cons]
        omega
  exact hall b.blocks hnonempty

theorem toNat_ofNat_index {b : Body} (hlen : b.blocks.length ≤ UInt32.size) {k : Nat}
    (hk : k < b.blocks.length) : (BlockIndex.ofNat k).toNat = k :=
  UInt32.toNat_ofNat_of_lt' (Nat.lt_of_lt_of_le hk hlen)

/-! ### Relations between blocks

Positions come in with 64 bits and go out as indices of 32.  They are checked against
the number of blocks, and no check is needed that they fit: there are no more blocks
than there are handles.
-/

/-- The blocks at given positions. -/
def indexList (positions : List UInt64) : List BlockIndex :=
  positions.map fun position => .ofNat position.toNat

theorem indices_eq_ok {count : Nat} {positions : List UInt64} {xs : List BlockIndex} :
    indices count positions = .ok xs ↔
      (∀ position ∈ positions, position.toNat < count) ∧ indexList positions = xs := by
  refine mapM_eq_ok_of_guard fun position x => ?_
  by_cases h : position.toNat < count
  · simp [h]
  · simp [h]

theorem edges_eq_ok {count : Nat} {blocks : List Dump.Block}
    {edges : List (List BlockIndex × List BlockIndex)} :
    blocks.mapM (blockEdges count) = .ok edges ↔
      (∀ block ∈ blocks, ∀ position ∈ block.successors ++ block.exceptionalPredecessors,
        position.toNat < count) ∧
        blocks.map (fun block =>
          (indexList block.successors, indexList block.exceptionalPredecessors)) = edges := by
  refine mapM_eq_ok_of_guard fun block e => ?_
  unfold blockEdges
  simp only [bind_eq_ok, indices_eq_ok, List.forall_mem_append]
  constructor
  · rintro ⟨normal, ⟨hn, rfl⟩, exceptional, ⟨he, rfl⟩, h⟩
    exact ⟨⟨hn, he⟩, Except.ok.inj h⟩
  · rintro ⟨⟨hn, he⟩, rfl⟩
    exact ⟨_, ⟨hn, rfl⟩, _, ⟨he, rfl⟩, rfl⟩

/-! ### Second pass

A phi fails with its first source that fails, so its sources exist together or not at
all.
-/

theorem phiArg_eq_ok {placed : Placement} {here : Label} {s : Dump.PhiSource Dump.Operand}
    {arg : PhiArg Value} :
    phiArg placed here s = .ok arg ↔
      placed.lookup s.origin = some arg.block ∧ s.value.convert = .ok arg.value := by
  unfold phiArg
  cases placed.lookup s.origin with
  | none => simp
  | some index =>
      simp only [bind_eq_ok, Except.ok.injEq, Option.some.injEq]
      constructor
      · rintro ⟨v, hv, rfl⟩
        exact ⟨rfl, hv⟩
      · rintro ⟨rfl, hv⟩
        exact ⟨_, hv, rfl⟩

/-- The phis that instructions of a body assign, under the handles of the instructions. -/
def assignedPhis (b : Body) : List (InstructionId × List (Dump.PhiSource Dump.Operand)) :=
  b.instructions.filterMap fun i => (phiSources? i).map fun sources => (i.id, sources)

/-- What the second pass makes of a phi under a handle: its sources under a label. -/
def ResolvesPhi (b : Body) (e : InstructionId × List (Dump.PhiSource Dump.Operand))
    (r : Label × List (PhiArg Value)) : Prop :=
  label b e.1 = .ok r.1 ∧
    List.Forall₂ (fun s arg => phiArg (placement b) r.1 s = .ok arg) e.2 r.2

theorem phiArgs_eq_ok {b : Body} {dialect : Dialect} {phis : List (Label × List (PhiArg Value))} :
    phiArgs b dialect (placement b) = .ok phis ↔
      if dialect.hasPhis then List.Forall₂ (ResolvesPhi b) (assignedPhis b) phis
      else phis = [] := by
  unfold phiArgs
  by_cases hd : dialect.hasPhis = true
  · rw [if_pos hd, if_pos hd, mapM_eq_ok]
    refine iff_of_eq (congrArg (fun R => List.Forall₂ R (assignedPhis b) phis) ?_)
    funext e r
    simp only [bind_eq_ok, mapM_eq_ok, ResolvesPhi, eq_iff_iff]
    constructor
    · rintro ⟨here, hhere, args, hargs, h⟩
      cases h
      exact ⟨hhere, hargs⟩
    · rintro ⟨hhere, hargs⟩
      exact ⟨_, hhere, _, hargs, rfl⟩
  · rw [if_neg hd, if_neg hd]
    simp [eq_comm]

/-- A block is made of statements at a position. -/
def MakesBlock (position : Nat) (ss : List Statement) (block : Code.Block) : Prop :=
  (∃ head, ss.head? = some head ∧ head.label = block.label) ∧ block.index = .ofNat position ∧
    block.statements = ss

theorem block_eq_ok {position : Nat} {ss : List Statement} {blk : Code.Block} :
    block position ss = .ok blk ↔ MakesBlock position ss blk := by
  unfold block MakesBlock
  cases ss with
  | nil => simp [Code.Block.ofStatements?]
  | cons head rest =>
      obtain ⟨label, index, statements⟩ := blk
      simp only [Code.Block.ofStatements?, Except.ok.injEq, Code.Block.mk.injEq, List.head?_cons,
        Option.some.injEq, exists_eq_left']
      constructor
      · rintro ⟨h1, h2, h3⟩
        exact ⟨h1, h2.symm, h3.symm⟩
      · rintro ⟨h1, h2, h3⟩
        exact ⟨h1, h2.symm, h3.symm⟩

theorem blocks_eq_ok {lists : List (List Statement)} {blks : List Code.Block} :
    Conversion.blocks lists = .ok blks ↔
      List.Forall₂ (fun e blk => MakesBlock e.2 e.1 blk) lists.zipIdx blks := by
  unfold Conversion.blocks
  rw [mapM_eq_ok]
  simp only [block_eq_ok]

/-! ### Both passes

`Converted` has a field for each check and for each result in between.  The conversion
goes through them in this order.
-/

/-- A body is converted: what it has to satisfy, the statements of the first pass, the phi sources
of the second, and the method that comes out. -/
structure Converted (b : Body) (dialect : Dialect) (base out : Code.Method)
    (drafts : List (List Statement)) (phis : List (Label × List (PhiArg Value))) : Prop where
  distinct : b.DistinctHandles
  nonempty : ∀ block ∈ b.blocks, block.instructions ≠ []
  once : b.placed.Nodup
  edges : ∀ block ∈ b.blocks, ∀ position ∈ block.successors ++ block.exceptionalPredecessors,
    position.toNat < b.blocks.length
  drafted : List.Forall₂ (DraftsBlock b dialect) b.blocks drafts
  resolved : if dialect.hasPhis then List.Forall₂ (ResolvesPhi b) (assignedPhis b) phis else phis = []
  blocks : List.Forall₂ (fun e blk => MakesBlock e.2 e.1 blk)
    (drafts.map (withSources phis)).zipIdx out.blocks
  method : out = { base with
    blocks := out.blocks
    successors := edgeMap (b.blocks.map fun block => indexList block.successors)
    exceptionalPredecessors :=
      edgeMap (b.blocks.map fun block => indexList block.exceptionalPredecessors) }

/-- **The conversion of a body succeeds with a method exactly if the body is converted to it.** -/
theorem convert_eq_ok {b : Body} {dialect : Dialect} {base out : Code.Method} :
    b.convert dialect base = .ok out ↔ ∃ drafts phis, Converted b dialect base out drafts phis := by
  unfold Body.convert
  simp only [bind_eq_ok, Prod.exists,
    bodyStatements_eq_ok (show Placement.Distinct [] from List.nodup_nil), List.append_nil,
    edges_eq_ok, blocks_eq_ok]
  constructor
  · rintro ⟨⟨⟩, hdistinct, drafts, placed, ⟨hnonempty, hdrafts, rfl, honce⟩, edges, ⟨hedges, rfl⟩,
      phis, hphis, blks, hblks, h⟩
    cases h
    refine ⟨drafts, phis, checkHandles_eq_ok.mp hdistinct, hnonempty,
      distinct_placement.mp honce, hedges, hdrafts, phiArgs_eq_ok.mp hphis, hblks, ?_⟩
    simp [Function.comp_def]
  · rintro ⟨drafts, phis, h⟩
    refine ⟨(), checkHandles_eq_ok.mpr h.distinct, drafts, placement b, ⟨h.nonempty, h.drafted, rfl,
      distinct_placement.mpr h.once⟩, _, ⟨h.edges, rfl⟩, phis, phiArgs_eq_ok.mpr h.resolved,
      out.blocks, h.blocks, ?_⟩
    rw [h.method]
    simp [Function.comp_def]

/-- A converted method has no blocks, or its body was converted. -/
theorem converted_of_convert {m : Dump.Method} {dialect : Dialect} {className : String}
    {out : Code.Method} (h : m.convert dialect className = .ok out) :
    out.blocks = [] ∨
      ∃ b base drafts phis, m.body = some b ∧ Converted b dialect base out drafts phis := by
  obtain ⟨declared, -, h⟩ := bind_eq_ok.mp h
  cases hbody : m.body with
  | none =>
      simp only [hbody] at h
      obtain rfl := Except.ok.inj h
      exact .inl rfl
  | some b =>
      simp only [hbody] at h
      obtain ⟨drafts, phis, hconverted⟩ := convert_eq_ok.mp h
      exact .inr ⟨b, _, drafts, phis, rfl, hconverted⟩

end BytecodeIR.Conversion
