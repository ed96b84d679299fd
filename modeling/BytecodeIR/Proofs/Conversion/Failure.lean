/-
Failures that name no handle.

Some failures name the handle of an instruction.  In an operand a handle stands only as
the origin of a phi source, and a phi is refused before its sources are looked at, so
no failure of an operand names one.  The failures of a chain of steps are those of its
steps, which is all that is needed to go through the rule for a record, case by case.
-/
import BytecodeIR.Conversion.Body
import BytecodeIR.Proofs.Conversion.Operand

namespace BytecodeIR.Conversion

open Code (Value)
open Dump (InstructionId Operand Slots)

/-! ### Failures

`Nameless` says nothing of a computation that succeeds, so it is a matter of the
failures that come up in its steps.  It passes through the chaining of steps for that
reason: what fails first fails the whole.
-/

/-- The handle that a failure names. -/
def Failure.handle? : Failure → Option InstructionId
  | unknownInstruction id => some id
  | duplicateInstruction id => some id
  | unresolvedSource _ origin => some origin
  | _ => none

/-- A computation never fails with a handle. -/
def Nameless {α : Type} (r : Except Failure α) : Prop := ∀ e, r = .error e → e.handle? = none

section Nameless

variable {α β : Type}

theorem nameless_ok {a : α} : Nameless (.ok a) := by
  intro e h
  cases h

theorem nameless_error {e : Failure} (he : e.handle? = none) :
    Nameless (.error e : Except Failure α) := by
  intro e' h
  cases h
  exact he

theorem Nameless.bind {x : Except Failure α} {k : α → Except Failure β} (hx : Nameless x)
    (hk : ∀ a, Nameless (k a)) : Nameless (x >>= k) := by
  intro e h
  cases x with
  | error e' => exact hx e (by cases h; rfl)
  | ok a => exact hk a e h

theorem Nameless.map {x : Except Failure α} {k : α → β} (hx : Nameless x) :
    Nameless (x.map k) := by
  intro e h
  cases x with
  | error e' => exact hx e (by cases h; rfl)
  | ok a => cases h

theorem nameless_mapM {k : α → Except Failure β} {xs : List α} (hk : ∀ x ∈ xs, Nameless (k x)) :
    Nameless (xs.mapM k) := by
  induction xs with
  | nil => exact nameless_ok
  | cons x rest ih =>
      rw [List.forall_mem_cons] at hk
      rw [List.mapM_cons]
      exact hk.1.bind fun _ => (ih hk.2).bind fun _ => nameless_ok

theorem nameless_require {kind name : String} {slot : Option α} :
    Nameless (require kind name slot) := by
  cases slot with
  | none => exact nameless_error rfl
  | some a => exact nameless_ok

end Nameless

/-! ### Operands

The rule for a record is a chain of looking slots up, reading constants and taking over
what became of the operands inside.  The first two never fail with a handle.  So a
record is nameless if its operands are, and the fold carries this to operands of any
depth.
-/

section Rule

variable {s : Slots Outcome}

theorem nameless_operand {name : String} {slot : Option Outcome}
    (hslot : ∀ r, slot = some r → Nameless r) : Nameless (operand s name slot) := by
  cases slot with
  | none => exact nameless_error rfl
  | some r => exact hslot r rfl

theorem nameless_integerConstant : Nameless (integerConstant s) := by
  refine nameless_require.bind fun c => ?_
  cases c with
  | integer i => exact nameless_ok
  | _ => exact nameless_error rfl

theorem nameless_textConstant : Nameless (textConstant s) := by
  refine nameless_require.bind fun c => ?_
  cases c with
  | text t => exact nameless_ok
  | _ => exact nameless_error rfl

theorem nameless_shortConstant : Nameless (shortConstant s) := by
  refine nameless_integerConstant.bind fun i => ?_
  split
  · exact nameless_ok
  · exact nameless_error rfl

theorem nameless_realConstant : Nameless (realConstant s) := by
  refine nameless_require.bind fun c => ?_
  cases c with
  | text t =>
      dsimp only
      split
      · exact nameless_ok
      · exact nameless_error rfl
  | _ => exact nameless_ok

variable (hs : ∀ r ∈ s.operands, Nameless r)

include hs

theorem nameless_call {kind : Code.InvokeKind} : Nameless (call s kind) := by
  -- A receiver that is out of place is refused by the kind of the call.
  have hreceiver : Nameless (receiver s kind) := by
    unfold receiver
    split
    · rename_i r hr
      split
      · exact nameless_error rfl
      · exact (hs r (by simp [Slots.operands, hr])).map
    · split
      · exact nameless_error rfl
      · exact nameless_ok
  have hbootstrap : Nameless (bootstrap s kind) := by
    unfold bootstrap
    split
    · refine (nameless_mapM fun r hr => ?_).bind fun _ => nameless_ok
      exact hs r (by simp [Slots.operands, hr])
    · exact nameless_ok
  have hargs : Nameless (values s.args) := nameless_mapM fun r hr =>
    hs r (by simp [Slots.operands, hr])
  exact nameless_require.bind fun _ => hreceiver.bind fun _ => hbootstrap.bind fun _ =>
    hargs.bind fun _ => nameless_ok

theorem nameless_slot {name : String} {slot : Option Outcome}
    (hslot : slot ∈ [s.base, s.index, s.left, s.right, s.single, s.size]) :
    Nameless (operand s name slot) := by
  refine nameless_operand fun r hr => hs r ?_
  simp only [List.mem_cons, List.not_mem_nil, or_false] at hslot
  rcases hslot with rfl | rfl | rfl | rfl | rfl | rfl
  all_goals simp [Slots.operands, hr]

theorem nameless_expr {k : Dump.ExprKind} : Nameless (expr s k) := by
  cases k with
  | binary op | condition op =>
      exact (nameless_slot hs (by simp)).bind fun _ =>
        (nameless_slot hs (by simp)).bind fun _ => nameless_ok
  | unary op | length => exact (nameless_slot hs (by simp)).bind fun _ => nameless_ok
  | cast | newArray | instanceOf =>
      exact nameless_require.bind fun _ =>
        (nameless_slot hs (by simp)).bind fun _ => nameless_ok
  | newObject => exact nameless_require.bind fun _ => nameless_ok
  | newMultiArray =>
      have hsizes : Nameless (values s.sizes) := nameless_mapM fun r hr =>
        hs r (by simp [Slots.operands, hr])
      exact nameless_require.bind fun _ => hsizes.bind fun _ => nameless_ok
  | phi =>
      -- Refused before any source is looked at, so no origin comes into the failure.
      exact nameless_error rfl
  | invoke kind => exact (nameless_call hs).bind fun _ => nameless_ok

theorem nameless_node {k : Dump.ValueKind} : Nameless (node s k) := by
  cases k with
  | localVariable | param => exact nameless_require.bind fun _ => nameless_ok
  | arrayRef =>
      exact (nameless_slot hs (by simp)).bind fun _ =>
        (nameless_slot hs (by simp)).bind fun _ => nameless_ok
  | instanceField =>
      exact (nameless_slot hs (by simp)).bind fun _ =>
        nameless_require.map.bind fun _ => nameless_ok
  | staticField => exact nameless_require.map.bind fun _ => nameless_ok
  | caughtException | this | nullConstant => exact nameless_ok
  | classConstant | stringConstant => exact nameless_textConstant.bind fun _ => nameless_ok
  | doubleConstant | floatConstant => exact nameless_realConstant.bind fun _ => nameless_ok
  | intConstant => exact nameless_shortConstant.bind fun _ => nameless_ok
  | longConstant => exact nameless_integerConstant.bind fun _ => nameless_ok

theorem nameless_value : Nameless (value s) := by
  unfold value
  dsimp only
  split
  -- A kind that is not known is named by the failure, and a kind is no handle.
  · split
    · exact (nameless_expr hs).map
    · exact nameless_error rfl
  · split
    · exact (nameless_node hs).map
    · exact nameless_error rfl

end Rule

/-- **No failure of an operand names a handle.** -/
theorem nameless_convert (o : Operand) : Nameless o.convert := by
  induction o using Operand.induct with
  | step s ih =>
      rw [convert_of]
      refine nameless_value fun r hr => ?_
      rw [Slots.operands_map, List.mem_map] at hr
      obtain ⟨o, ho, rfl⟩ := hr
      exact ih o ho

theorem nameless_convertCall (o : Operand) (kind : Code.InvokeKind) :
    Nameless (o.convertCall kind) := by
  refine nameless_call fun r hr => ?_
  rw [Slots.operands_map, List.mem_map] at hr
  obtain ⟨o, -, rfl⟩ := hr
  exact nameless_convert o

/-! ### Modifiers, edges and blocks

The remaining steps of a conversion work on positions in lists and on bits of words; no
handle is in their reach.
-/

theorem nameless_attributes {word : UInt32} : Nameless (attributes word) := by
  unfold attributes
  dsimp only
  split
  · exact nameless_ok
  · exact nameless_error rfl

theorem nameless_blockEdges {count : Nat} {block : Dump.Block} :
    Nameless (blockEdges count block) := by
  have hindices : ∀ positions, Nameless (indices count positions) := fun positions =>
    nameless_mapM fun position _ => by
      split
      · exact nameless_ok
      · exact nameless_error rfl
  exact (hindices _).bind fun _ => (hindices _).bind fun _ => nameless_ok

theorem nameless_blocks {lists : List (List Code.Statement)} : Nameless (blocks lists) := by
  refine nameless_mapM fun e _ => ?_
  unfold block
  split
  · exact nameless_ok
  · exact nameless_error rfl

end BytecodeIR.Conversion
