/-
Handles are names and nothing else.

Replacing every handle of a method by another one, different handles by different
ones, changes nothing about the conversion: the same code comes out, or it fails in
the same way and the failure names the new handle.  So no label, index or edge can
depend on what handles there are or on their order.

Handles are only ever compared: with the handles of the body to find an instruction,
and with those already met to find where it lies.  Each of these steps commutes with
renaming for that reason, and so does each walk, by induction on the list that it
walks along.  Where no handle counts the failures name none, and there is nothing to
rename.
-/
import BytecodeIR.Conversion.Class
import BytecodeIR.Proofs.Conversion.Failure
import BytecodeIR.Proofs.Conversion.Structure
import BytecodeIR.Proofs.Dump.Renaming

namespace BytecodeIR.Conversion

open Code (BlockIndex Label PhiArg Statement Value)
open Dump (Body Instruction InstructionId Operand PhiSource Slots)

/-! ### Failures

Three failures name a handle.  Steps that are nameless stay what they are under
renaming, and this is what is used of them.
-/

/-- Renames the handle that a failure names, if it names one. -/
def Failure.rename (f : InstructionId → InstructionId) : Failure → Failure
  | unknownInstruction id => .unknownInstruction (f id)
  | duplicateInstruction id => .duplicateInstruction (f id)
  | unresolvedSource here origin => .unresolvedSource here (f origin)
  | e => e

theorem Failure.rename_of_handle? {f : InstructionId → InstructionId} {e : Failure}
    (h : e.handle? = none) : e.rename f = e := by
  cases e with
  | unknownInstruction | duplicateInstruction | unresolvedSource => cases h
  | _ => rfl

theorem Nameless.mapError {α : Type} {f : InstructionId → InstructionId} {x : Except Failure α}
    (hx : Nameless x) : x.mapError (Failure.rename f) = x := by
  cases x with
  | error e => exact congrArg Except.error (Failure.rename_of_handle? (hx e rfl))
  | ok a => rfl

/-! ### Operands

The rule for a record keeps the sources of a phi out of what it makes, and nothing else
in a record names a handle.  So what an operand is converted to does not change at all.
-/

section Operand

variable {f : InstructionId → InstructionId}

/-- The rule for a record does not look at its phi sources. -/
theorem value_rename (s : Slots Outcome) : value (s.rename f) = value s := by
  have hexpr : ∀ k, expr (s.rename f) k = expr s k := fun k => by cases k <;> rfl
  have hnode : ∀ k, node (s.rename f) k = node s k := fun k => by cases k <;> rfl
  have hkind : (s.rename f).kind = s.kind := rfl
  unfold value
  simp only [hexpr, hnode, hkind]

/-- **The handles in an operand do not count.** -/
theorem convert_rename_operand (o : Operand) : (o.rename f).convert = o.convert := by
  have hrule : ∀ s : Slots Operand,
      (Operand.of (s.rename f)).convert = value (s.map Operand.convert) := by
    intro s
    rw [convert_of, Slots.rename_map, value_rename]
  exact Operand.fold_hom hrule o

theorem exprKind?_rename (o : Operand) : (o.rename f).exprKind? = o.exprKind? := by
  obtain ⟨s⟩ := o
  rw [Operand.rename_of]
  rfl

theorem isPhi_rename (o : Operand) : (o.rename f).isPhi = o.isPhi := by
  unfold Operand.isPhi
  rw [exprKind?_rename]

theorem convertCall_rename (o : Operand) (kind : Code.InvokeKind) :
    (o.rename f).convertCall kind = o.convertCall kind := by
  obtain ⟨s⟩ := o
  -- The operands of the call are converted as before, and only its phi sources are renamed.
  have hslots : ((Operand.of s).rename f).slots.map Operand.convert =
      (s.map Operand.convert).rename f := by
    rw [Operand.rename_of]
    show ((s.map (Operand.rename f)).rename f).map Operand.convert = _
    rw [Slots.rename_map, Slots.map_map]
    simp only [convert_rename_operand]
  unfold Operand.convertCall
  rw [hslots]
  rfl

theorem phiSources_rename (o : Operand) :
    (o.rename f).slots.phiSources = o.slots.phiSources.map (PhiSource.renameDeep f) := by
  obtain ⟨s⟩ := o
  rw [Operand.rename_of]
  simp only [Operand.slots, Slots.rename, Slots.map, List.map_map]
  rfl

end Operand

/-! ### Looking handles up

Three lists are looked through: the instructions of the body, the notes on where they
lie, and the handles met so far.  Each time one handle is tested against others for
equality, and an injective renaming does not change the outcome of such a test.  This is
the only place where injectivity is needed.
-/

/-- Renames the handles in the notes about where instructions lie. -/
def Placement.rename (f : InstructionId → InstructionId) (placed : Placement) : Placement :=
  placed.map fun e => (f e.1, e.2)

section Lookup

variable {f : InstructionId → InstructionId} (hf : f.Injective) (b : Body)

include hf

theorem rename_beq (id id' : InstructionId) : (f id == f id') = (id == id') := by
  rw [Bool.eq_iff_iff, beq_iff_eq, beq_iff_eq]
  exact hf.eq_iff

theorem position?_rename (id : InstructionId) : position? (b.rename f) (f id) = position? b id := by
  unfold position? Body.rename
  rw [List.findIdx?_map]
  congr 1
  funext i
  exact rename_beq hf i.id id

theorem label_rename (id : InstructionId) :
    label (b.rename f) (f id) = (label b id).mapError (Failure.rename f) := by
  unfold label
  rw [position?_rename hf]
  cases position? b id with
  | none => rfl
  | some n => rfl

theorem instruction_rename (id : InstructionId) : instruction (b.rename f) (f id) =
    ((instruction b id).map (Instruction.rename f)).mapError (Failure.rename f) := by
  have hfind : (b.rename f).instruction? (f id) =
      (b.instruction? id).map (Instruction.rename f) := by
    unfold Body.instruction? Body.rename
    rw [List.find?_map]
    congr 2
    funext i
    exact rename_beq hf i.id id
  unfold instruction
  rw [hfind]
  cases b.instruction? id with
  | none => rfl
  | some i => rfl

theorem lookup_rename (placed : Placement) (id : InstructionId) :
    (placed.rename f).lookup (f id) = placed.lookup id := by
  unfold Placement.rename
  induction placed with
  | nil => rfl
  | cons e rest ih =>
      obtain ⟨id', index⟩ := e
      rw [List.map_cons, List.lookup_cons, List.lookup_cons, rename_beq hf, ih]

theorem firstRepeated?_rename (seen ids : List InstructionId) :
    firstRepeated? (seen.map f) (ids.map f) = (firstRepeated? seen ids).map f := by
  induction ids generalizing seen with
  | nil => rfl
  | cons id rest ih =>
      have hmem : f id ∈ seen.map f ↔ id ∈ seen := List.mem_map_of_injective hf
      have hrest := ih (id :: seen)
      rw [List.map_cons] at hrest
      rw [List.map_cons, firstRepeated?, firstRepeated?, hrest]
      by_cases hseen : id ∈ seen
      · rw [if_pos hseen, if_pos (hmem.mpr hseen)]
        rfl
      · rw [if_neg hseen, if_neg (mt hmem.mp hseen)]

theorem checkHandles_rename :
    checkHandles (b.rename f) = (checkHandles b).mapError (Failure.rename f) := by
  have hhandles : (b.rename f).instructions.map (·.id) = (b.instructions.map (·.id)).map f := by
    simp [Body.rename, Instruction.rename, Function.comp_def]
  have hfirst := firstRepeated?_rename hf [] (b.instructions.map (·.id))
  unfold checkHandles
  rw [hhandles]
  rw [List.map_nil] at hfirst
  rw [hfirst]
  cases firstRepeated? [] (b.instructions.map (·.id)) with
  | none => rfl
  | some id => rfl

end Lookup

/-! ### Instructions

From here on a step is given together with its renamed counterpart, and
`bind_eq_mapError` chains two such pairs.  The proof for an instruction therefore has
the shape of its conversion: one link for each slot that is looked up.
-/

section Instruction

variable {f : InstructionId → InstructionId} (b : Body) (i : Instruction)
  (dialect : Dialect) (here : Label)

theorem slotValue_rename (name : String) (slot : Option Operand) :
    slotValue (i.rename f) name (slot.map (Operand.rename f)) =
      (slotValue i name slot).mapError (Failure.rename f) := by
  cases slot with
  | none => rfl
  | some o => exact (convert_rename_operand o).trans (nameless_convert o).mapError.symm

/-- A step for an operand that has to be there. -/
theorem bind_require_rename {α : Type} {kind name : String} (slot : Option Operand)
    {k' k : Operand → Except Failure α}
    (hk : ∀ o, k' (o.rename f) = (k o).mapError (Failure.rename f)) :
    require kind name (slot.map (Operand.rename f)) >>= k' =
      (require kind name slot >>= k).mapError (Failure.rename f) := by
  cases slot with
  | none => rfl
  | some o => exact hk o

/-- A step that is taken unless something is wrong. -/
theorem unless_rename {α : Type} {wrong' wrong : Prop} [Decidable wrong'] [Decidable wrong]
    (hwrong : wrong' ↔ wrong) {e' e : Failure} (he : e' = e.rename f) {x' x : Except Failure α}
    (hx : x' = x.mapError (Failure.rename f)) :
    (if wrong' then (throw e' : Except Failure PUnit) >>= fun _ => x' else x') =
      (if wrong then (throw e : Except Failure PUnit) >>= fun _ => x else x).mapError
        (Failure.rename f) := by
  by_cases h : wrong
  · rw [if_pos h, if_pos (hwrong.mpr h), he]
    rfl
  · rw [if_neg h, if_neg (mt hwrong.mp h), hx]

theorem assigned_rename (o : Operand) : assigned dialect here (o.rename f) =
    (assigned dialect here o).mapError (Failure.rename f) := by
  unfold assigned
  rw [isPhi_rename, convert_rename_operand]
  split
  · split
    · obtain ⟨s⟩ := o
      rw [Operand.rename_of]
      rfl
    · rfl
  · exact (nameless_convert o).mapError.symm

variable (hf : f.Injective)

include hf

theorem labels_rename (ids : List InstructionId) : (ids.map f).mapM (label (b.rename f)) =
    (ids.mapM (label b)).mapError (Failure.rename f) :=
  mapM_map_eq_mapError fun id _ => label_rename hf b id

theorem target_rename :
    target (b.rename f) (i.rename f) = (target b i).mapError (Failure.rename f) := by
  unfold target
  rw [show (i.rename f).target = i.target.map f from rfl]
  cases i.target with
  | none => rfl
  | some id => exact label_rename hf b id

theorem defaultTarget_rename :
    defaultTarget (b.rename f) (i.rename f) = (defaultTarget b i).mapError (Failure.rename f) := by
  unfold defaultTarget
  rw [show (i.rename f).defaultTarget = i.defaultTarget.map f from rfl]
  cases i.defaultTarget with
  | none => rfl
  | some id => exact label_rename hf b id

/-- **What an instruction does stays the same.** -/
theorem action_rename (kind : Dump.InstructionKind) :
    action (b.rename f) (i.rename f) dialect here kind =
      (action b i dialect here kind).mapError (Failure.rename f) := by
  have hslot := slotValue_rename (f := f) i
  have htarget := target_rename b i hf
  have hdefault := defaultTarget_rename b i hf
  have hlabels := labels_rename b hf
  have htargets : (i.rename f).targets = i.targets.map f := rfl
  cases kind with
  | assign =>
      refine bind_eq_mapError (hslot _ _) fun left => ?_
      exact bind_require_rename i.right fun o =>
        bind_eq_mapError (assigned_rename dialect here o) fun _ => rfl
  | identity =>
      exact bind_eq_mapError (hslot _ _) fun _ => bind_eq_mapError (hslot _ _) fun _ => rfl
  | breakpoint => rfl
  | enterMonitor => exact bind_eq_mapError (hslot _ _) fun _ => rfl
  | exitMonitor => exact bind_eq_mapError (hslot _ _) fun _ => rfl
  | goto => exact bind_eq_mapError htarget fun _ => rfl
  | branch => exact bind_eq_mapError (hslot _ _) fun _ => bind_eq_mapError htarget fun _ => rfl
  | invoke =>
      refine bind_require_rename i.invoke fun o => ?_
      rw [exprKind?_rename]
      split
      · -- A call is no operand of its own, so its rule is applied here and not by the fold.
        refine bind_eq_mapError ?_ fun _ => rfl
        exact (convertCall_rename o _).trans (nameless_convertCall o _).mapError.symm
      · rfl
  | giveBack => exact bind_eq_mapError (hslot _ _) fun _ => rfl
  | leave => rfl
  | lookupSwitch =>
      refine unless_rename ?_ ?_ ?_
      · rw [htargets, List.length_map]
        rfl
      · rfl
      · exact bind_eq_mapError (hlabels _) fun _ => bind_eq_mapError (hslot _ _) fun _ =>
          bind_eq_mapError hdefault fun _ => rfl
  | tableSwitch =>
      refine bind_eq_mapError nameless_require.mapError.symm fun low => ?_
      refine bind_eq_mapError nameless_require.mapError.symm fun high => ?_
      refine unless_rename ?_ ?_ ?_
      · rw [htargets, List.length_map]
      · rfl
      · exact bind_eq_mapError (hlabels _) fun _ => bind_eq_mapError (hslot _ _) fun _ =>
          bind_eq_mapError hdefault fun _ => rfl
  | throw => exact bind_eq_mapError (hslot _ _) fun _ => rfl

theorem statement_rename : statement (b.rename f) (i.rename f) dialect =
    (statement b i dialect).mapError (Failure.rename f) := by
  refine bind_eq_mapError (label_rename hf b i.id) fun here => ?_
  rw [show (i.rename f).kind = i.kind from rfl]
  cases Dump.InstructionKind.ofName? i.kind with
  | none => rfl
  | some kind => exact bind_eq_mapError (action_rename b i dialect here hf kind) fun _ => rfl

end Instruction

/-! ### Blocks

The notes that the first pass carries along are renamed as well, so the induction has to
be for any notes.
-/

section Body

variable {f : InstructionId → InstructionId} (hf : f.Injective) (b : Body) (dialect : Dialect)

include hf

theorem blockStatements_rename (index : BlockIndex) (placed : Placement)
    (ids : List InstructionId) :
    blockStatements (b.rename f) dialect index (placed.rename f) (ids.map f) =
      ((blockStatements b dialect index placed ids).map
        (Prod.map id (Placement.rename f))).mapError (Failure.rename f) := by
  induction ids generalizing placed with
  | nil => rfl
  | cons id rest ih =>
      -- The notes are renamed along with the handles, so a handle is met again exactly if it was.
      rw [List.map_cons, blockStatements, blockStatements, apply_ite (Except.map _)]
      simp only [map_bind]
      refine unless_rename ?_ ?_ ?_
      · rw [lookup_rename hf]
      · rfl
      · refine bind_map_eq_mapError (instruction_rename hf b id) fun i => ?_
        refine bind_eq_mapError (statement_rename b i dialect hf) fun s => ?_
        exact bind_map_eq_mapError (ih ((id, index) :: placed)) fun _ => rfl

theorem bodyStatements_rename (position : Nat) (placed : Placement) (blocks : List Dump.Block) :
    bodyStatements (b.rename f) dialect position (placed.rename f)
        (blocks.map (Dump.Block.rename f)) =
      ((bodyStatements b dialect position placed blocks).map
        (Prod.map id (Placement.rename f))).mapError (Failure.rename f) := by
  induction blocks generalizing position placed with
  | nil => rfl
  | cons block rest ih =>
      rw [List.map_cons, bodyStatements, bodyStatements, apply_ite (Except.map _)]
      simp only [map_bind]
      refine unless_rename ?_ ?_ ?_
      · simp [Dump.Block.rename]
      · rfl
      · refine bind_map_eq_mapError (blockStatements_rename hf b dialect _ placed _) fun made => ?_
        exact bind_map_eq_mapError (ih (position + 1) made.2) fun _ => rfl

/-! ### Phis

The second pass looks its origins up in the renamed notes.  A source is no operand of
its own; its value is one, and is converted as before.
-/

theorem phiArg_rename (placed : Placement) (here : Label) (s : PhiSource Operand) :
    phiArg (placed.rename f) here (s.renameDeep f) =
      (phiArg placed here s).mapError (Failure.rename f) := by
  unfold phiArg PhiSource.renameDeep
  rw [lookup_rename hf]
  cases placed.lookup s.origin with
  | none => rfl
  | some index =>
      dsimp only
      rw [convert_rename_operand]
      exact bind_eq_mapError (nameless_convert s.value).mapError.symm fun _ => rfl

omit hf in
theorem phiSources?_rename (i : Instruction) : phiSources? (i.rename f) =
    (phiSources? i).map (List.map (PhiSource.renameDeep f)) := by
  unfold phiSources?
  rw [show (i.rename f).kind = i.kind from rfl,
    show (i.rename f).right = i.right.map (Operand.rename f) from rfl]
  split
  · cases i.right with
    | none => rfl
    | some right =>
        dsimp only [Option.map_some]
        rw [isPhi_rename, phiSources_rename]
        split
        · rfl
        · rfl
  · rfl

omit hf in
theorem assignedPhis_rename : assignedPhis (b.rename f) =
    (assignedPhis b).map (Prod.map f (List.map (PhiSource.renameDeep f))) := by
  unfold assignedPhis Body.rename
  rw [List.map_filterMap, List.filterMap_map]
  congr 1
  funext i
  show (phiSources? (i.rename f)).map _ = _
  rw [phiSources?_rename, Option.map_map, Option.map_map]
  rfl

theorem phiArgs_rename (placed : Placement) : phiArgs (b.rename f) dialect (placed.rename f) =
    (phiArgs b dialect placed).mapError (Failure.rename f) := by
  unfold phiArgs
  split
  · show (assignedPhis (b.rename f)).mapM _ = Except.mapError _ ((assignedPhis b).mapM _)
    rw [assignedPhis_rename]
    refine mapM_map_eq_mapError fun e _ => ?_
    refine bind_eq_mapError (label_rename hf b e.1) fun here => ?_
    exact bind_eq_mapError (mapM_map_eq_mapError fun s _ => phiArg_rename hf placed here s)
      fun _ => rfl
  · rfl

/-! ### Bodies and methods

The two passes and the edges are three more links of the chain.  Edges are positions and
blocks are made of statements, so neither has a handle to rename.
-/

theorem convert_rename_body (base : Code.Method) :
    (b.rename f).convert dialect base = (b.convert dialect base).mapError (Failure.rename f) := by
  refine bind_eq_mapError (checkHandles_rename hf b) fun _ => ?_
  refine bind_map_eq_mapError (bodyStatements_rename hf b dialect 0 [] b.blocks) fun made => ?_
  have hedges : (b.rename f).blocks.mapM (blockEdges (b.rename f).blocks.length) =
      (b.blocks.mapM (blockEdges b.blocks.length)).mapError (Failure.rename f) := by
    refine mapM_map_eq_mapError fun block _ => ?_
    rw [show (b.rename f).blocks.length = b.blocks.length from List.length_map _]
    exact nameless_blockEdges.mapError.symm
  refine bind_eq_mapError hedges fun edges => ?_
  refine bind_eq_mapError (phiArgs_rename hf b dialect made.2) fun phis => ?_
  exact bind_eq_mapError nameless_blocks.mapError.symm fun _ => rfl

end Body

/-- **Renaming the handles of a method renames the handle in a failure, and does nothing else.** -/
theorem convert_rename {f : InstructionId → InstructionId} (hf : f.Injective) (m : Dump.Method)
    (dialect : Dialect) (className : String) : (m.rename f).convert dialect className =
      (m.convert dialect className).mapError (Failure.rename f) := by
  refine bind_eq_mapError nameless_attributes.mapError.symm fun declared => ?_
  rw [show (m.rename f).body = m.body.map (Body.rename f) from rfl]
  cases m.body with
  | none => rfl
  | some b => exact convert_rename_body hf b dialect _

/-- The handle whose bits are all turned over; it reverses the order of handles. -/
def turnOver (id : InstructionId) : InstructionId := ⟨~~~id.val⟩

/-- A method whose only block lists an instruction that is not there. -/
def hollow : Dump.Method := { spin with body := some { spinBody with blocks := [⟨[⟨7⟩], [], []⟩] } }

/-- The handles of `spin` can be turned over, and the one that `hollow` lacks is turned over with
the rest. -/
theorem convert_rename_turnOver : Function.Injective turnOver ∧
    (spin.rename turnOver).convert .singleAssignment "Main" =
      spin.convert .singleAssignment "Main" ∧
    (hollow.rename turnOver).convert .singleAssignment "Main" =
      .error (.unknownInstruction ⟨0xfffffff8⟩) := by
  have hinjective : Function.Injective turnOver := by
    rintro ⟨a⟩ ⟨b⟩ h
    have hbits : ~~~a = ~~~b := congrArg InstructionId.val h
    rw [UInt32.not_inj.mp hbits]
  refine ⟨hinjective, ?_, ?_⟩
  · rw [convert_rename hinjective]
    rfl
  · rw [convert_rename hinjective]
    rfl

end BytecodeIR.Conversion
