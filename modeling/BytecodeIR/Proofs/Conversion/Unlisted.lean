/-
What instructions that no block lists have to do with the conversion.

The first pass goes through the blocks, so it never gets to an instruction that no
block lists; such an instruction only takes up a position.  The second pass goes
through all instructions of the body and resolves the phi of each, listed or not.
What it finds for an instruction that is not listed is put in nowhere, since no
statement has the label of that instruction.  But the second pass may fail there.

So one such instruction can be replaced by another one with the same handle, and the
conversion comes to the same, unless it ends with the failure to resolve the phi of
one of the two.  Both conversions run alike up to the instruction in question, and
from there on they differ only in what it contributes: `PartAt` says what can then
become of them.
-/
import BytecodeIR.Proofs.Conversion.Structure

namespace BytecodeIR

namespace Dump

/-- Puts an instruction in the place of the one at a position. -/
def Body.replace (b : Body) (k : Nat) (i : Instruction) : Body :=
  { b with instructions := b.instructions.set k i }

/-- Puts an instruction in the place of the one at a position of the body. -/
def Method.replace (m : Method) (k : Nat) (i : Instruction) : Method :=
  { m with body := m.body.map (·.replace k i) }

/-- Replacing an element leaves those before it and those after it. -/
theorem exists_append_of_getElem? {α : Type} {xs : List α} {k : Nat} {x : α}
    (hk : xs[k]? = some x) :
    ∃ before after, xs = before ++ x :: after ∧ ∀ y, xs.set k y = before ++ y :: after := by
  obtain ⟨hlt, hget⟩ := List.getElem?_eq_some_iff.mp hk
  refine ⟨xs.take k, xs.drop (k + 1), ?_, fun y => List.set_eq_take_append_cons_drop.trans ?_⟩
  · rw [← hget, List.cons_getElem_drop_succ, List.take_append_drop]
  · rw [if_pos hlt]

end Dump

namespace Conversion

open Code (BlockIndex Label PhiArg Statement Value)
open Dump (Body Instruction InstructionId)

/-! ### The same handles

Labels are positions and handles stay in place, so every label is as before, and so is
every statement of an instruction that is listed.
-/

section Replaced

variable {b : Body} {k : Nat} {i i' : Instruction} (hk : b.instructions[k]? = some i)
  (hid : i'.id = i.id)

include hk hid

theorem handles_replace : (b.replace k i').handles = b.handles := by
  obtain ⟨before, after, hsplit, hset⟩ := Dump.exists_append_of_getElem? hk
  show (b.instructions.set k i').map _ = b.instructions.map _
  rw [hset, hsplit, List.map_append, List.map_append, List.map_cons, List.map_cons, hid]

theorem label_replace : label (b.replace k i') = label b := label_congr (handles_replace hk hid)

theorem instruction_replace {id : InstructionId} (hne : id ≠ i.id) :
    instruction (b.replace k i') id = instruction b id := by
  obtain ⟨before, after, hsplit, hset⟩ := Dump.exists_append_of_getElem? hk
  have hfind : (b.replace k i').instruction? id = b.instruction? id := by
    show (b.instructions.set k i').find? _ = b.instructions.find? _
    rw [hset, hsplit, List.find?_append, List.find?_append,
      List.find?_cons_of_neg (by simpa [hid] using hne.symm),
      List.find?_cons_of_neg (by simpa using hne.symm)]
  unfold instruction
  rw [hfind]

/-- **The first pass does not look at an instruction that is not listed.** -/
theorem bodyStatements_replace (dialect : Dialect) (position : Nat) (placed : Placement)
    (blocks : List Dump.Block) (hout : ∀ block ∈ blocks, i.id ∉ block.instructions) :
    bodyStatements (b.replace k i') dialect position placed blocks =
      bodyStatements b dialect position placed blocks := by
  refine bodyStatements_congr position placed fun block hblock id hlisted => ?_
  have hne : id ≠ i.id := fun h => hout block hblock (h ▸ hlisted)
  unfold draft
  rw [instruction_replace hk hid hne]
  exact bind_congr fun j => statement_congr (label_replace hk hid) j dialect

end Replaced

/-! ### The second pass, one instruction after another

The second pass collects the phis first and resolves them then.  To replace one
instruction it is more convenient to see it go through the instructions and resolve the
phi of each on the way.
-/

/-- What the second pass finds for an instruction: the sources of the phi that it assigns, if it
assigns one. -/
def resolved (b : Body) (placed : Placement) (i : Instruction) :
    Except Failure (List (Label × List (PhiArg Value))) :=
  match phiSources? i with
  | none => .ok []
  | some sources => do
    let here ← label b i.id
    let args ← sources.mapM (phiArg placed here)
    .ok [(here, args)]

/-- The sources of the phi that an instruction assigns cannot be found, for a reason. -/
def PhiFails (b : Body) (i : Instruction) (e : Failure) : Prop :=
  resolved b (placement b) i = .error e

theorem phiArgs_eq_resolved {b : Body} {dialect : Dialect} (hphis : dialect.hasPhis = true)
    (placed : Placement) : phiArgs b dialect placed =
      (b.instructions.mapM (resolved b placed)).map List.flatten := by
  unfold phiArgs
  rw [if_pos hphis]
  induction b.instructions with
  | nil => rfl
  | cons i rest ih =>
      rw [List.mapM_cons, map_bind]
      cases hphi : phiSources? i with
      | none =>
          have hfound : resolved b placed i = .ok [] := by rw [resolved, hphi]
          rw [List.filterMap_cons_none (by rw [hphi]; rfl), ih, hfound]
          cases rest.mapM (resolved b placed) with
          | error e => rfl
          | ok found => rfl
      | some sources =>
          rw [List.filterMap_cons_some (by rw [hphi]; rfl), List.mapM_cons, ih, resolved, hphi]
          dsimp only
          cases label b i.id with
          | error e => rfl
          | ok here =>
              cases hargs : sources.mapM (phiArg placed here) with
              | error e => simp [hargs, bind, Except.bind]
              | ok args =>
                  simp only [hargs, bind, Except.bind]
                  cases rest.mapM (resolved b placed) with
                  | error e => rfl
                  | ok found => rfl

/-- The second pass finds something for the instructions before one of them, for that one, and for
those after it. -/
theorem phiArgs_split {b : Body} {dialect : Dialect} (hphis : dialect.hasPhis = true)
    (placed : Placement) {before after : List Instruction} {i : Instruction}
    (hb : b.instructions = before ++ i :: after) :
    phiArgs b dialect placed = before.mapM (resolved b placed) >>= fun earlier =>
      resolved b placed i >>= fun found => after.mapM (resolved b placed) >>= fun later =>
        .ok (earlier.flatten ++ (found ++ later.flatten)) := by
  rw [phiArgs_eq_resolved hphis, hb, List.mapM_append, List.mapM_cons]
  cases before.mapM (resolved b placed) with
  | error e => rfl
  | ok earlier =>
      cases resolved b placed i with
      | error e => rfl
      | ok found =>
          cases after.mapM (resolved b placed) with
          | error e => rfl
          | ok later =>
              refine congrArg Except.ok ?_
              rw [List.flatten_append, List.flatten_cons]

/-- What the second pass finds for an instruction is under its label. -/
theorem label_of_resolved {b : Body} {placed : Placement} {i : Instruction}
    {found : List (Label × List (PhiArg Value))} (h : resolved b placed i = .ok found) :
    ∀ e ∈ found, label b i.id = .ok e.1 := by
  unfold resolved at h
  split at h
  · cases h
    simp
  · obtain ⟨here, hhere, h⟩ := bind_eq_ok.mp h
    obtain ⟨args, -, h⟩ := bind_eq_ok.mp h
    cases h
    simpa using hhere

/-! ### Two conversions that part at one step

Two runs that take the same steps up to one of them, and go on in ways that come to the
same, agree unless that one step fails in one of them.  `PartAt` names the step and says
so; it passes through whatever is done before and after.
-/

section Parting

variable {α β γ : Type}

/-- Two computations come to the same, or one of them fails as one of two steps does and the other
does not. -/
def PartAt (step step' : Except Failure β) (r r' : Except Failure γ) : Prop :=
  r' = r ∨ (∃ e, step = .error e ∧ step' ≠ .error e ∧ r = .error e) ∨
    ∃ e, step' = .error e ∧ step ≠ .error e ∧ r' = .error e

variable {step step' : Except Failure β}

theorem PartAt.bind {x : Except Failure α} {f f' : α → Except Failure γ}
    (h : ∀ a, x = .ok a → PartAt step step' (f a) (f' a)) :
    PartAt step step' (x >>= f) (x >>= f') := by
  cases x with
  | error e => exact .inl rfl
  | ok a => exact h a rfl

theorem PartAt.steps {f f' : β → Except Failure γ}
    (h : ∀ b b', step = .ok b → step' = .ok b' → f' b' = f b) :
    PartAt step step' (step >>= f) (step' >>= f') := by
  cases step with
  | error e =>
      by_cases he : step' = .error e
      · rw [he]
        exact .inl rfl
      · exact .inr (.inl ⟨e, rfl, he, rfl⟩)
  | ok b =>
      cases step' with
      | error e => exact .inr (.inr ⟨e, rfl, by simp, rfl⟩)
      | ok b' => exact .inl (h b b' rfl rfl)

end Parting

/-! ### What is found for an instruction that is not listed -/

section Skipped

variable {found : List (Label × List (PhiArg Value))}

/-- What is filed under other labels is not put into a statement. -/
theorem putSources_append {s : Statement} (h : ∀ e ∈ found, e.1 ≠ s.label)
    (before after : List (Label × List (PhiArg Value))) :
    putSources (before ++ (found ++ after)) s = putSources (before ++ after) s := by
  have hnone : found.lookup s.label = none := by
    rw [List.lookup_eq_none_iff]
    intro e he
    simpa using (h e he).symm
  unfold putSources
  rw [List.lookup_append, List.lookup_append, hnone, Option.none_or, ← List.lookup_append]

/-- No statement of the first pass has the label of an instruction that is not listed. -/
theorem label_ne_of_drafts {b : Body} {dialect : Dialect} {i : Instruction} {l : Label}
    {drafts : List (List Statement)} (hb : b.DistinctHandles) (hout : i.id ∉ b.placed)
    (hdrafts : List.Forall₂ (DraftsBlock b dialect) b.blocks drafts) (hl : label b i.id = .ok l) :
    ∀ ss ∈ drafts, ∀ s ∈ ss, l ≠ s.label := by
  rintro ss hss s hs rfl
  obtain ⟨block, hblock, hdraft⟩ := forall₂_mem_left hdrafts hss
  obtain ⟨id, hid, j, hj, hstatement⟩ := forall₂_mem_left hdraft hs
  obtain ⟨here, kind, a, hhere, -, -, rfl⟩ := statement_eq_ok.mp hstatement
  have hsame := ((label_eq_ok hb).mp hl).handle_unique ((label_eq_ok hb).mp hhere)
  rw [(Body.mem_of_instruction? hj).2] at hsame
  exact hout (Body.mem_placed.mpr ⟨block, hblock, hsame ▸ hid⟩)

/-- **What is found for an instruction that is not listed is put in nowhere.** -/
theorem withSources_skip {b : Body} {dialect : Dialect} {i : Instruction}
    {drafts : List (List Statement)} (hb : b.DistinctHandles) (hout : i.id ∉ b.placed)
    (hdrafts : List.Forall₂ (DraftsBlock b dialect) b.blocks drafts)
    (hfound : ∀ e ∈ found, label b i.id = .ok e.1)
    {earlier later : List (Label × List (PhiArg Value))} :
    drafts.map (withSources (earlier ++ (found ++ later))) =
      drafts.map (withSources (earlier ++ later)) := by
  refine List.map_congr_left fun ss hss => List.map_congr_left fun s hs => ?_
  exact putSources_append (fun e he =>
    label_ne_of_drafts hb hout hdrafts (hfound e he) ss hss s hs) _ _

end Skipped

/-! ### Whole bodies -/

section Body

variable {b : Body} {k : Nat} {i i' : Instruction} (hk : b.instructions[k]? = some i)
  (hid : i'.id = i.id)

include hk hid

theorem resolved_replace (placed : Placement) :
    resolved (b.replace k i') placed = resolved b placed := by
  funext j
  unfold resolved
  simp only [label_replace hk hid]

/-- The conversions of both bodies run alike up to the second pass. -/
theorem partAt_convert (hout : i.id ∉ b.placed) {dialect : Dialect} {β : Type}
    {step step' : Except Failure β} (base : Code.Method)
    (h : ∀ drafts, b.DistinctHandles → List.Forall₂ (DraftsBlock b dialect) b.blocks drafts →
      ∀ finish : List (List Statement) → Except Failure Code.Method, PartAt step step'
        (phiArgs b dialect (placement b) >>= fun phis => finish (drafts.map (withSources phis)))
        (phiArgs (b.replace k i') dialect (placement b) >>= fun phis =>
          finish (drafts.map (withSources phis)))) :
    PartAt step step' (b.convert dialect base) ((b.replace k i').convert dialect base) := by
  have hlisted : ∀ block ∈ b.blocks, i.id ∉ block.instructions := fun block hblock hi =>
    hout (Body.mem_placed.mpr ⟨block, hblock, hi⟩)
  unfold Body.convert
  rw [checkHandles_congr (handles_replace hk hid), show (b.replace k i').blocks = b.blocks from rfl,
    bodyStatements_replace hk hid dialect 0 [] b.blocks hlisted]
  refine PartAt.bind fun _ hhandles => PartAt.bind fun made hfirst =>
    PartAt.bind fun edges _ => ?_
  obtain ⟨drafts, placed⟩ := made
  obtain ⟨-, hdrafts, hplaced, -⟩ :=
    (bodyStatements_eq_ok (show Placement.Distinct [] from List.nodup_nil)).mp hfirst
  rw [List.append_nil] at hplaced
  obtain rfl : placed = placement b := hplaced
  exact h drafts (checkHandles_eq_ok.mp hhandles) hdrafts fun lists => do
    let blocks ← Conversion.blocks lists
    .ok { base with
      blocks
      successors := edgeMap (edges.map (·.1))
      exceptionalPredecessors := edgeMap (edges.map (·.2)) }

/-- **Another instruction that is not listed changes nothing, except that with phis the conversion
may end with the failure of one that only one of the two assigns.** -/
theorem convert_replace_body (hout : i.id ∉ b.placed) (dialect : Dialect) (base : Code.Method) :
    (b.replace k i').convert dialect base = b.convert dialect base ∨
      dialect = .singleAssignment ∧ PartAt (resolved b (placement b) i)
        (resolved b (placement b) i') (b.convert dialect base)
          ((b.replace k i').convert dialect base) := by
  cases dialect with
  | plain =>
      -- Without phis the second pass does nothing, and there is no step to part at.
      have hpart : PartAt (.ok ()) (.ok ()) (b.convert .plain base)
          ((b.replace k i').convert .plain base) :=
        partAt_convert hk hid hout base fun drafts _ _ finish => .inl rfl
      rcases hpart with hsame | ⟨e, he, -⟩ | ⟨e, he, -⟩
      · exact .inl hsame
      · cases he
      · cases he
  | singleAssignment =>
      refine .inr ⟨rfl, partAt_convert hk hid hout base fun drafts hb hdrafts finish => ?_⟩
      obtain ⟨before, after, hsplit, hset⟩ := Dump.exists_append_of_getElem? hk
      rw [phiArgs_split rfl _ hsplit, phiArgs_split rfl _ (hset i'), resolved_replace hk hid]
      simp only [bind_assoc]
      -- What is found here goes under the label of an instruction that has no statement.
      refine PartAt.bind fun earlier _ => PartAt.steps fun found found' hfound hfound' => ?_
      refine bind_congr fun later => ?_
      have hlabels := label_of_resolved hfound
      have hlabels' := label_of_resolved hfound'
      rw [hid] at hlabels'
      show finish _ = finish _
      rw [withSources_skip hb hout hdrafts hlabels, withSources_skip hb hout hdrafts hlabels']

end Body

/-- **Another instruction in the place of one that no block lists changes nothing; only in the
dialect with phis the conversion may end with the failure of a phi, which the one assigns and the
other does not.** -/
theorem convert_replace {m : Dump.Method} {b : Body} {k : Nat} {i i' : Instruction}
    (hbody : m.body = some b) (hk : b.instructions[k]? = some i) (hid : i'.id = i.id)
    (hout : i.id ∉ b.placed) (dialect : Dialect) (className : String) :
    (m.replace k i').convert dialect className = m.convert dialect className ∨
      dialect = .singleAssignment ∧
        ((∃ e, PhiFails b i e ∧ ¬ PhiFails b i' e ∧ m.convert dialect className = .error e) ∨
          ∃ e, PhiFails b i' e ∧ ¬ PhiFails b i e ∧
            (m.replace k i').convert dialect className = .error e) := by
  have hconvert : ∀ {n : Dump.Method} {c : Body}, n.body = some c →
      n.convert dialect className = attributes n.modifiers >>= fun declared =>
        c.convert dialect (.withoutBody className n.name n.params n.returnType declared
          n.exceptions) := by
    intro n c hc
    unfold Dump.Method.convert
    rw [hc]
  have hbody' : (m.replace k i').body = some (b.replace k i') := by
    rw [Dump.Method.replace, hbody]
    rfl
  rw [hconvert hbody, hconvert hbody', show (m.replace k i').modifiers = m.modifiers from rfl]
  cases attributes m.modifiers with
  | error e => exact .inl rfl
  | ok declared =>
      rcases convert_replace_body hk hid hout dialect _ with hsame | ⟨hdialect, hpart⟩
      · exact .inl hsame
      · rcases hpart with hsame | hfails
        · exact .inl hsame
        · exact .inr ⟨hdialect, hfails⟩

/-- A body whose only block returns, with an instruction that no block lists. -/
def trailingBody (i : Instruction) : Body :=
  ⟨[.ofKind ⟨0⟩ "JReturnVoidStmt", i], [⟨[⟨0⟩], [], []⟩]⟩

/-- The method with the body `trailingBody`, and a return as the instruction that is not listed. -/
def trailing : Dump.Method :=
  ⟨"trailing", [], "void", 9, [], some (trailingBody (.ofKind ⟨1⟩ "JReturnVoidStmt"))⟩

/-- An assignment of a phi whose only source comes from the assignment itself. -/
def selfPhi : Instruction :=
  let x : Dump.Operand := .of { Dump.Slots.ofKind "Local" "int" with name := some "x" }
  { Dump.Instruction.ofKind ⟨1⟩ "JAssignStmt" with
    left := some x
    right := some (.of { Dump.Slots.ofKind "SPhiExpr" "int" with phiSources := [⟨x, ⟨1⟩⟩] }) }

/-- An instruction of no known kind can be put in the place of the one that is not listed. -/
theorem convert_replace_trailing :
    (trailing.replace 1 (.ofKind ⟨1⟩ "JUnknownStmt")).convert .singleAssignment "Main" =
      trailing.convert .singleAssignment "Main" := by
  have hid : (Instruction.ofKind ⟨1⟩ "JUnknownStmt").id =
      (Instruction.ofKind ⟨1⟩ "JReturnVoidStmt").id := rfl
  have hbody : trailing.body = some (trailingBody (.ofKind ⟨1⟩ "JReturnVoidStmt")) := rfl
  rcases convert_replace (k := 1) hbody rfl hid (by decide) .singleAssignment "Main"
    with hsame | ⟨-, ⟨e, he, -⟩ | ⟨e, he, -⟩⟩
  · exact hsame
  · cases he
  · cases he

/-- **An assignment of a phi that does not resolve cannot.** -/
theorem convert_replace_selfPhi :
    selfPhi.id = ⟨1⟩ ∧ ⟨1⟩ ∉ (trailingBody (.ofKind ⟨1⟩ "JReturnVoidStmt")).placed ∧
      (∃ out, trailing.convert .singleAssignment "Main" = .ok out) ∧
        (trailing.replace 1 selfPhi).convert .singleAssignment "Main" =
          .error (.unresolvedSource ⟨1⟩ ⟨1⟩) :=
  ⟨rfl, by decide, ⟨_, rfl⟩, rfl⟩

end Conversion

end BytecodeIR
