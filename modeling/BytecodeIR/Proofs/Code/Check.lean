/-
What the check of a method establishes.

The check walks through a method and stops at the first violation, and what it
carries along is the list of labels in use.  That list is the invariant: it has
no repetitions, and after some blocks it is made up of the labels of exactly the
statements in them.  So the labels that the last step looks branches up in are
all labels of the method, and nothing else.

Being consistent falls into two parts.  `Arranged` is what can be seen without
following a branch, and `BranchesResolve` is the rest.  They are kept apart
because a conversion promises the first outright.  That a label identifies its
block is no part of either: it follows from labels being distinct, and so does that
everything which has a label or an index is found by it.
-/
import BytecodeIR.Code.Check
import BytecodeIR.Proofs.Success
import Mathlib.Data.List.Nodup
import Mathlib.Data.List.Pairwise

namespace BytecodeIR.Code

/-! ### What a consistent method is -/

/-- A block begins with the statement that it is labelled by. -/
def Block.Headed (b : Block) : Prop := ∃ head, b.head? = some head ∧ head.label = b.label

/-- A relation has no empty entry and stays within a method of `count` blocks. -/
def EdgeMap.Within (count : Nat) (edges : EdgeMap) : Prop :=
  ∀ e ∈ edges.entries, e.2 ≠ [] ∧ ∀ index ∈ e.1 :: e.2, index.toNat < count

/-- The sources of the phi that a statement assigns come from within a method of `count` blocks. -/
def Statement.SourcesWithin (count : Nat) (s : Statement) : Prop :=
  ∀ args, s.action.phiArgs? = some args → ∀ a ∈ args, a.block.toNat < count

namespace Method

/-- The labels of all statements, in the order of the blocks. -/
def labels (m : Method) : List Label := m.statements.map (·.label)

/-- Everything about a method is in place, wherever its branches may go. -/
structure Arranged (m : Method) : Prop where
  /-- Blocks stand where their indices say. -/
  index : ∀ (k : Nat) (block : Block), m.blocks[k]? = some block → block.index.toNat = k
  /-- Blocks are not empty, and begin with the statement that they are labelled by. -/
  headed : ∀ block ∈ m.blocks, block.Headed
  /-- No label is used twice. -/
  distinct : m.labels.Nodup
  successors : m.successors.Within m.blocks.length
  exceptionalPredecessors : m.exceptionalPredecessors.Within m.blocks.length
  /-- Phi sources come from blocks of the method. -/
  sources : ∀ s ∈ m.statements, s.SourcesWithin m.blocks.length

/-- Every branch goes to a statement of the method. -/
def BranchesResolve (m : Method) : Prop := ∀ s ∈ m.statements, ∀ l ∈ s.targets, l ∈ m.labels

/-! ### Distinct labels identify blocks

A block has the label of its first statement, and no other block has a statement with
this label.  Looking a block up by its label stops at the first one that has it, so it
stops at the right one.
-/

theorem mem_statements {m : Method} {s : Statement} :
    s ∈ m.statements ↔ ∃ block ∈ m.blocks, s ∈ block.statements := List.mem_flatMap

theorem mem_labels_of_head {b : Block} (h : b.Headed) : b.label ∈ b.statements.map (·.label) := by
  obtain ⟨head, hhead, hlabel⟩ := h
  exact List.mem_map.mpr ⟨head, List.mem_of_mem_head? hhead, hlabel⟩

/-- **A block is found by its label if labels are distinct.** -/
theorem blockLabeled?_label {m : Method} (hheaded : ∀ block ∈ m.blocks, block.Headed)
    (hdistinct : m.labels.Nodup) {block : Block} (hblock : block ∈ m.blocks) :
    m.blockLabeled? block.label = some block := by
  have hsome : (m.blockLabeled? block.label).isSome :=
    List.find?_isSome.mpr ⟨block, hblock, by simp⟩
  obtain ⟨found, hfound⟩ := Option.isSome_iff_exists.mp hsome
  have hmem : found ∈ m.blocks := List.mem_of_find?_eq_some hfound
  have hlabel : found.label = block.label := by simpa using List.find?_some hfound
  have hflat : (m.blocks.flatMap fun b => b.statements.map (·.label)).Nodup := by
    rw [← List.map_flatMap]
    exact hdistinct
  have hsymm : Std.Symm (Function.onFun List.Disjoint
      fun b : Block => b.statements.map (·.label)) := ⟨fun _ _ h _ ha hb => h hb ha⟩
  -- Both blocks have the label among their statements, so they are one block.
  by_contra hne
  rw [hfound] at hne
  have hdisjoint := (List.nodup_flatMap.mp hflat).2.forall hmem hblock
    fun h => hne (congrArg some h)
  refine hdisjoint (mem_labels_of_head (hheaded found hmem)) ?_
  rw [hlabel]
  exact mem_labels_of_head (hheaded block hblock)

/-! ### Step by step

Each step of the check is turned into what it establishes.  The steps over labels also
say which labels they leave behind, and are stated for any list in use without
repetitions, since this is what the next step starts from.
-/

theorem checkLabels_eq_ok {used used' : List Label} {ss : List Statement} (hused : used.Nodup) :
    checkLabels used ss = .ok used' ↔
      used' = (ss.map (·.label)).reverse ++ used ∧ used'.Nodup := by
  induction ss generalizing used with
  | nil =>
      rw [checkLabels]
      constructor
      · intro h
        cases h
        exact ⟨rfl, hused⟩
      · rintro ⟨rfl, -⟩
        rfl
  | cons s rest ih =>
      rw [checkLabels]
      by_cases hmem : s.label ∈ used
      · rw [if_pos hmem]
        refine iff_of_false (by simp) ?_
        rintro ⟨rfl, hd⟩
        exact (List.nodup_append.mp hd).2.2 s.label (by simp) s.label hmem rfl
      · rw [if_neg hmem, ih (List.nodup_cons.mpr ⟨hmem, hused⟩)]
        simp

/-- What the check of a block at a position asks of the block itself. -/
structure BlockPasses (m : Method) (position : Nat) (b : Block) : Prop where
  index : b.index.toNat = position
  headed : b.Headed
  found : (m.blockLabeled? b.label).map (·.index) = some b.index

theorem checkBlock_eq_ok {m : Method} {used used' : List Label} {position : Nat} {b : Block}
    (hused : used.Nodup) :
    m.checkBlock used position b = .ok used' ↔
      m.BlockPasses position b ∧ used' = (b.statements.map (·.label)).reverse ++ used ∧
        used'.Nodup := by
  rw [← checkLabels_eq_ok hused]
  unfold checkBlock
  by_cases hindex : b.index.toNat = position
  · rw [if_neg (not_not.mpr hindex)]
    cases hhead : b.head? with
    | none =>
        refine iff_of_false (by simp) ?_
        rintro ⟨⟨-, ⟨head, hhead', -⟩, -⟩, -⟩
        rw [hhead] at hhead'
        cases hhead'
    | some head =>
        by_cases hlabel : head.label = b.label
        · by_cases hfound : (m.blockLabeled? b.label).map (·.index) = some b.index
          · simp only [hlabel, hfound, ne_eq, not_true_eq_false, if_false]
            exact ⟨fun h => ⟨⟨hindex, ⟨head, hhead, hlabel⟩, hfound⟩, h⟩, fun h => h.2⟩
          · simp only [hlabel, hfound, ne_eq, not_true_eq_false, if_false, not_false_eq_true,
              if_true]
            exact iff_of_false (by simp) fun h => hfound h.1.found
        · simp only [hlabel, ne_eq, not_false_eq_true, if_true]
          refine iff_of_false (by simp) ?_
          rintro ⟨⟨-, ⟨head', hhead', hlabel'⟩, -⟩, -⟩
          rw [hhead] at hhead'
          cases hhead'
          exact hlabel hlabel'
  · rw [if_pos hindex]
    exact iff_of_false (by simp) fun h => hindex h.1.index

/-- **The blocks pass exactly if each of them does and no label comes twice; the labels in use are
then those of their statements.** -/
theorem checkBlocks_eq_ok {m : Method} {used used' : List Label} {position : Nat}
    {blocks : List Block} (hused : used.Nodup) :
    m.checkBlocks used position blocks = .ok used' ↔
      (∀ k b, blocks[k]? = some b → m.BlockPasses (position + k) b) ∧
        used' = ((blocks.flatMap (·.statements)).map (·.label)).reverse ++ used ∧
          used'.Nodup := by
  induction blocks generalizing used position with
  | nil =>
      rw [checkBlocks]
      constructor
      · intro h
        cases h
        exact ⟨by simp, rfl, hused⟩
      · rintro ⟨-, rfl, -⟩
        rfl
  | cons b rest ih =>
      have hall : (∀ k c, (b :: rest)[k]? = some c → m.BlockPasses (position + k) c) ↔
          m.BlockPasses position b ∧
            ∀ k c, rest[k]? = some c → m.BlockPasses (position + 1 + k) c := by
        constructor
        · intro h
          refine ⟨h 0 b rfl, fun k c hc => ?_⟩
          have hstep := h (k + 1) c hc
          rwa [show position + 1 + k = position + (k + 1) by omega]
        · rintro ⟨hhead, htail⟩ k c hc
          cases k with
          | zero =>
              cases hc
              exact hhead
          | succ k =>
              rw [show position + (k + 1) = position + 1 + k by omega]
              exact htail k c hc
      have hnotes : (((b :: rest).flatMap (·.statements)).map (·.label)).reverse ++ used =
          ((rest.flatMap (·.statements)).map (·.label)).reverse ++
            ((b.statements.map (·.label)).reverse ++ used) := by
        simp
      rw [checkBlocks, bind_eq_ok, hall, hnotes]
      constructor
      · rintro ⟨labels, hlabels, hrest⟩
        obtain ⟨hhead, rfl, hd⟩ := (checkBlock_eq_ok hused).mp hlabels
        obtain ⟨htail, hsame, hd'⟩ := (ih hd).mp hrest
        exact ⟨⟨hhead, htail⟩, hsame, hd'⟩
      · rintro ⟨⟨hhead, htail⟩, hsame, hd'⟩
        have hd : ((b.statements.map (·.label)).reverse ++ used).Nodup := by
          rw [hsame] at hd'
          exact hd'.of_append_right
        exact ⟨_, (checkBlock_eq_ok hused).mpr ⟨hhead, rfl, hd⟩,
          (ih hd).mpr ⟨htail, hsame, hd'⟩⟩

theorem checkEntry_eq_ok {relation : String} {count : Nat} {source : BlockIndex}
    {ends : List BlockIndex} :
    checkEntry relation count source ends = .ok () ↔
      ends ≠ [] ∧ ∀ index ∈ source :: ends, index.toNat < count := by
  unfold checkEntry
  by_cases hempty : ends = []
  · simp [hempty]
  · rw [if_neg (by simp [hempty])]
    cases hfind : (source :: ends).find? fun index => decide (count ≤ index.toNat) with
    | none =>
        have hall := List.find?_eq_none.mp hfind
        simp only [decide_eq_true_eq, Nat.not_le] at hall
        exact iff_of_true rfl ⟨hempty, hall⟩
    | some index =>
        have hmem := List.mem_of_find?_eq_some hfind
        have hge : count ≤ index.toNat := by simpa using List.find?_some hfind
        refine iff_of_false (by simp) fun h => ?_
        have hlt := h.2 index hmem
        omega

theorem checkEdges_eq_ok {relation : String} {count : Nat} {edges : EdgeMap} :
    checkEdges relation count edges = .ok () ↔ edges.Within count := by
  unfold checkEdges
  rw [forM_eq_ok]
  simp only [checkEntry_eq_ok]
  rfl

theorem checkReferences_eq_ok {labels : List Label} {count : Nat} {s : Statement} :
    checkReferences labels count s = .ok () ↔
      (∀ l ∈ s.targets, l ∈ labels) ∧ s.SourcesWithin count := by
  unfold checkReferences
  cases htarget : s.targets.find? fun target => decide (target ∉ labels) with
  | some target =>
      have hmem := List.mem_of_find?_eq_some htarget
      have hout : target ∉ labels := by simpa using List.find?_some htarget
      exact iff_of_false (by simp) fun h => hout (h.1 target hmem)
  | none =>
      have hin : ∀ l ∈ s.targets, l ∈ labels := by simpa using List.find?_eq_none.mp htarget
      cases hsource : (s.action.phiArgs?.getD []).find? fun a => decide (count ≤ a.block.toNat) with
      | some a =>
          have hmem := List.mem_of_find?_eq_some hsource
          have hge : count ≤ a.block.toNat := by simpa using List.find?_some hsource
          refine iff_of_false (by simp) fun h => ?_
          cases hargs : s.action.phiArgs? with
          | none => simp [hargs] at hmem
          | some args =>
              rw [hargs] at hmem
              have hlt := h.2 args hargs a hmem
              omega
      | none =>
          refine iff_of_true rfl ⟨hin, fun args hargs a ha => ?_⟩
          rw [hargs] at hsource
          simpa using List.find?_eq_none.mp hsource a ha

/-! ### The whole check -/

theorem checkBlocks_of_arranged {m : Method} (h : m.Arranged) :
    m.checkBlocks [] 0 m.blocks = .ok m.labels.reverse := by
  refine (checkBlocks_eq_ok List.nodup_nil).mpr ⟨fun k b hb => ?_, ?_, ?_⟩
  · have hmem : b ∈ m.blocks := List.mem_of_getElem? hb
    refine ⟨(h.index k b hb).trans (Nat.zero_add k).symm, h.headed b hmem, ?_⟩
    rw [blockLabeled?_label h.headed h.distinct hmem]
    rfl
  · rw [List.append_nil]
    rfl
  · exact List.nodup_reverse.mpr h.distinct

/-- In an arranged method the check comes down to the branches. -/
theorem check_of_arranged {m : Method} (h : m.Arranged) :
    m.check = m.statements.forM (checkReferences m.labels.reverse m.blocks.length) := by
  have hsuccessors : checkEdges "control flow" m.blocks.length m.successors = .ok () :=
    checkEdges_eq_ok.mpr h.successors
  have hexceptional :
      checkEdges "exceptional predecessor" m.blocks.length m.exceptionalPredecessors = .ok () :=
    checkEdges_eq_ok.mpr h.exceptionalPredecessors
  unfold check
  rw [checkBlocks_of_arranged h]
  show (checkEdges _ _ m.successors >>= fun _ => checkEdges _ _ m.exceptionalPredecessors >>= _) = _
  rw [hsuccessors, hexceptional]
  rfl

/-- **The check passes exactly if the method is arranged and its branches resolve.** -/
theorem check_eq_ok {m : Method} : m.check = .ok () ↔ m.Arranged ∧ m.BranchesResolve := by
  constructor
  · intro h
    obtain ⟨labels, hblocks, h⟩ := bind_eq_ok.mp h
    obtain ⟨⟨⟩, hsuccessors, h⟩ := bind_eq_ok.mp h
    obtain ⟨⟨⟩, hexceptional, h⟩ := bind_eq_ok.mp h
    obtain ⟨hpass, hlabels, hdistinct⟩ := (checkBlocks_eq_ok List.nodup_nil).mp hblocks
    rw [List.append_nil] at hlabels
    subst hlabels
    have hrefs : ∀ s ∈ m.statements, _ := fun s hs =>
      checkReferences_eq_ok.mp (forM_eq_ok.mp h s hs)
    have harranged : m.Arranged := {
      index := fun k b hb => (hpass k b hb).index.trans (Nat.zero_add k)
      headed := fun b hb => by
        obtain ⟨k, hk⟩ := List.getElem?_of_mem hb
        exact (hpass k b hk).headed
      distinct := List.nodup_reverse.mp hdistinct
      successors := checkEdges_eq_ok.mp hsuccessors
      exceptionalPredecessors := checkEdges_eq_ok.mp hexceptional
      sources := fun s hs => (hrefs s hs).2 }
    exact ⟨harranged, fun s hs l hl => List.mem_reverse.mp ((hrefs s hs).1 l hl)⟩
  · rintro ⟨harranged, hbranches⟩
    rw [check_of_arranged harranged]
    refine forM_eq_ok.mpr fun s hs => checkReferences_eq_ok.mpr ⟨fun l hl => ?_, ?_⟩
    · exact List.mem_reverse.mpr (hbranches s hs l hl)
    · exact harranged.sources s hs

/-- **The only violation in an arranged method is a branch to a label that the method lacks.** -/
theorem check_eq_error_of_arranged {m : Method} (h : m.Arranged) {flaw : Flaw}
    (hflaw : m.check = .error flaw) :
    ∃ s ∈ m.statements, ∃ l ∈ s.targets, l ∉ m.labels ∧ flaw = .danglingBranch s.label l := by
  rw [check_of_arranged h] at hflaw
  obtain ⟨s, hs, hcheck⟩ := exists_of_forM_eq_error hflaw
  refine ⟨s, hs, ?_⟩
  cases htarget : s.targets.find? fun target => decide (target ∉ m.labels.reverse) with
  | some target =>
      have hout : target ∉ m.labels.reverse := by simpa using List.find?_some htarget
      unfold checkReferences at hcheck
      rw [htarget] at hcheck
      exact ⟨target, List.mem_of_find?_eq_some htarget, fun hin => hout (List.mem_reverse.mpr hin),
        (Except.error.inj hcheck).symm⟩
  | none =>
      have hin : ∀ l ∈ s.targets, l ∈ m.labels.reverse := by
        simpa using List.find?_eq_none.mp htarget
      rw [checkReferences_eq_ok.mpr ⟨hin, h.sources s hs⟩] at hcheck
      cases hcheck

/-! ### Everything is found by its label or index

Nothing new is checked here.  A label occurs once in the method, so it occurs in one
block and once in it, and the index of a block is its position.
-/

/-- The parts of a method are found by what they are called, and no label is used in two blocks. -/
structure Addressable (m : Method) : Prop where
  /-- A block is found at its index. -/
  index : ∀ b ∈ m.blocks, m.block? b.index = some b
  /-- A block is found by its label. -/
  label : ∀ b ∈ m.blocks, m.blockLabeled? b.label = some b
  /-- A statement is found by its label in its block. -/
  statement : ∀ b ∈ m.blocks, ∀ s ∈ b.statements, b.statement? s.label = some s
  /-- Statements with one label stand in one block. -/
  apart : ∀ (k l : Nat) (b c : Block), m.blocks[k]? = some b → m.blocks[l]? = some c →
    ∀ s ∈ b.statements, ∀ t ∈ c.statements, s.label = t.label → k = l

/-- The labels of a method are those of its blocks, one after the other. -/
theorem labels_eq_flatMap (m : Method) :
    m.labels = m.blocks.flatMap fun b => b.statements.map (·.label) := List.map_flatMap

theorem nodup_labels_of_block {m : Method} (h : m.labels.Nodup) {b : Block} (hb : b ∈ m.blocks) :
    (b.statements.map (·.label)).Nodup := by
  rw [labels_eq_flatMap] at h
  exact (List.nodup_flatMap.mp h).1 b hb

/-- Blocks at different places have no label in common. -/
theorem disjoint_labels {m : Method} (h : m.labels.Nodup) {k l : Nat} (hkl : k < l) {b c : Block}
    (hb : m.blocks[k]? = some b) (hc : m.blocks[l]? = some c) {s t : Statement}
    (hs : s ∈ b.statements) (ht : t ∈ c.statements) : s.label ≠ t.label := by
  obtain ⟨hk, rfl⟩ := List.getElem?_eq_some_iff.mp hb
  obtain ⟨hl, rfl⟩ := List.getElem?_eq_some_iff.mp hc
  rw [labels_eq_flatMap] at h
  have hdisjoint := List.pairwise_iff_getElem.mp (List.nodup_flatMap.mp h).2 k l hk hl hkl
  intro hlabel
  refine hdisjoint (List.mem_map_of_mem hs) ?_
  rw [hlabel]
  exact List.mem_map_of_mem ht

theorem Arranged.addressable {m : Method} (h : m.Arranged) : m.Addressable := by
  constructor
  case index =>
    intro b hb
    obtain ⟨k, hk⟩ := List.getElem?_of_mem hb
    rw [block?, h.index k b hk, hk]
  case label =>
    intro b hb
    exact blockLabeled?_label h.headed h.distinct hb
  case statement =>
    intro b hb s hs
    exact (find?_key_eq_some (nodup_labels_of_block h.distinct hb)).mpr ⟨hs, rfl⟩
  case apart =>
    intro k l b c hb hc s hs t ht hlabel
    rcases Nat.lt_trichotomy k l with hlt | heq | hgt
    · exact absurd hlabel (disjoint_labels h.distinct hlt hb hc hs ht)
    · exact heq
    · exact absurd hlabel.symm (disjoint_labels h.distinct hgt hc hb ht hs)

/-- **The check passes exactly if the method is arranged and its branches resolve, and in a method
that passes every block and every statement is found by its label.** -/
theorem check_exact (m : Method) :
    (m.check = .ok () ↔ m.Arranged ∧ m.BranchesResolve) ∧ (m.check = .ok () → m.Addressable) := by
  refine ⟨check_eq_ok, fun h => ?_⟩
  exact (check_eq_ok.mp h).1.addressable

/-- A method that goes round between two blocks. -/
def circling : Method where
  className := "Clock"
  name := "circle"
  params := []
  returnType := "void"
  attributes := []
  exceptions := []
  blocks := [⟨⟨4⟩, ⟨0⟩, [⟨⟨4⟩, 0, .breakpoint⟩, ⟨⟨7⟩, 0, .goto ⟨2⟩⟩]⟩,
    ⟨⟨2⟩, ⟨1⟩, [⟨⟨2⟩, 0, .goto ⟨4⟩⟩]⟩]
  successors := .ofList [(⟨0⟩, [⟨1⟩]), (⟨1⟩, [⟨0⟩])]
  exceptionalPredecessors := ∅

theorem check_exact_circling : circling.check = .ok () ∧
    circling.blockLabeled? ⟨2⟩ = some ⟨⟨2⟩, ⟨1⟩, [⟨⟨2⟩, 0, .goto ⟨4⟩⟩]⟩ := by
  have hcheck : circling.check = .ok () := by decide +kernel
  have hblock : (⟨⟨2⟩, ⟨1⟩, [⟨⟨2⟩, 0, .goto ⟨4⟩⟩]⟩ : Block) ∈ circling.blocks := by
    simp [circling]
  exact ⟨hcheck, ((check_exact circling).2 hcheck).label _ hblock⟩

end Method

end BytecodeIR.Code
