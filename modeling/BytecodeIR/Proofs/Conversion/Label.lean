/-
A label is the position of its instruction, and nothing is lost in saying so.

Labels are words of 32 bits while positions are numbers of any size, so a body
with too many instructions would give two of them one label.  It cannot have too
many: handles are words of 32 bits as well, and the first thing a conversion
checks is that no handle stands twice.  There are only so many handles, so the
position of every instruction fits into its label, and two instructions that are
found under different handles get different labels.

`DistinctHandles` is that first check as a property.  Everything here that needs
it says so; whatever holds of a body with repeated handles is stated without it.
-/
import BytecodeIR.Conversion.Body
import BytecodeIR.Proofs.Dump.Body
import BytecodeIR.Proofs.Success

namespace BytecodeIR.Conversion

open Dump (Body Instruction InstructionId)
open Code (Label)

/-! ### The check of handles -/

theorem firstRepeated?_eq_none {seen ids : List InstructionId} :
    firstRepeated? seen ids = none ↔ ids.Nodup ∧ ∀ id ∈ ids, id ∉ seen := by
  induction ids generalizing seen with
  | nil => simp [firstRepeated?]
  | cons id rest ih =>
      unfold firstRepeated?
      by_cases hseen : id ∈ seen
      · simp [hseen]
      · rw [if_neg hseen, ih, List.nodup_cons]
        constructor
        · rintro ⟨hrest, hfresh⟩
          have hid : id ∉ rest := fun h => hfresh id h List.mem_cons_self
          refine ⟨⟨hid, hrest⟩, fun z hz => ?_⟩
          rcases List.mem_cons.mp hz with rfl | hz
          · exact hseen
          · exact fun h => hfresh z hz (List.mem_cons_of_mem _ h)
        · rintro ⟨⟨hid, hrest⟩, hfresh⟩
          refine ⟨hrest, fun z hz h => ?_⟩
          rcases List.mem_cons.mp h with rfl | h
          · exact hid hz
          · exact hfresh z (List.mem_cons_of_mem _ hz) h

theorem checkHandles_eq_ok {b : Body} : checkHandles b = .ok () ↔ b.DistinctHandles := by
  have hnone : firstRepeated? [] b.handles = none ↔ b.handles.Nodup ∧ ∀ id ∈ b.handles, id ∉ [] :=
    firstRepeated?_eq_none
  simp only [List.not_mem_nil, not_false_eq_true, implies_true, and_true] at hnone
  unfold Body.DistinctHandles checkHandles
  rw [← hnone]
  unfold Body.handles
  cases firstRepeated? [] (b.instructions.map (·.id)) with
  | none => simp
  | some id => simp

theorem checkHandles_congr {b b' : Body} (h : b'.handles = b.handles) :
    checkHandles b' = checkHandles b := by
  have hids : b'.instructions.map (·.id) = b.instructions.map (·.id) := h
  unfold checkHandles
  rw [hids]

/-! ### Positions and labels -/

variable {b : Body} {id id' : InstructionId} {l l' : Label}

theorem standsAt_of_position? {n : Nat} (h : position? b id = some n) : b.StandsAt id n := by
  obtain ⟨hn, hid, -⟩ := List.findIdx?_eq_some_iff_getElem.mp h
  show (b.instructions.map (·.id))[n]? = some id
  rw [List.getElem?_map, List.getElem?_eq_getElem hn]
  simpa using hid

theorem position?_isSome : (position? b id).isSome ↔ id ∈ b.handles := by
  unfold position? Body.handles
  rw [List.findIdx?_isSome, List.any_eq_true]
  simp

/-- The position of a handle is where the handle stands. -/
theorem position?_eq_some (hb : b.DistinctHandles) {n : Nat} :
    position? b id = some n ↔ b.StandsAt id n := by
  refine ⟨standsAt_of_position?, fun h => ?_⟩
  obtain ⟨m, hm⟩ := Option.isSome_iff_exists.mp (position?_isSome.mpr h.mem)
  rw [hm, (standsAt_of_position? hm).position_unique hb h]

/-- Labels depend on the handles of a body and on nothing else in it. -/
theorem label_congr {b' : Body} (h : b'.handles = b.handles) : label b' = label b := by
  have hposition : ∀ c : Body, position? c = fun id => c.handles.findIdx? (· == id) := by
    intro c
    funext id
    unfold position? Body.handles
    rw [List.findIdx?_map]
    rfl
  funext id
  unfold label
  rw [hposition, hposition, h]

theorem exists_label : (∃ l, label b id = .ok l) ↔ id ∈ b.handles := by
  rw [← position?_isSome]
  unfold label
  cases position? b id with
  | none => simp
  | some n => simp

/-- **The label of an instruction is its position, no matter how long the body is.** -/
theorem label_eq_ok (hb : b.DistinctHandles) :
    label b id = .ok l ↔ b.StandsAt id l.toNat := by
  unfold label
  cases hpos : position? b id with
  | none =>
      simp only [reduceCtorEq, false_iff]
      intro h
      rw [(position?_eq_some hb).mpr h] at hpos
      cases hpos
  | some n =>
      have hn := standsAt_of_position? hpos
      have hround : (Label.ofNat n).toNat = n :=
        UInt32.toNat_ofNat_of_lt' (hn.lt_size hb)
      constructor
      · intro h
        rw [← Except.ok.inj h, hround]
        exact hn
      · intro h
        show Except.ok (Label.ofNat n) = _
        rw [hn.position_unique hb h]
        rcases l with ⟨w⟩
        simp [Label.ofNat, Label.toNat]

/-- An instruction has one label only. -/
theorem label_unique (hb : b.DistinctHandles) (h : b.StandsAt id l.toNat)
    (h' : b.StandsAt id l'.toNat) : l = l' := by
  have hsame := h.position_unique hb h'
  rcases l with ⟨w⟩
  rcases l' with ⟨w'⟩
  exact congrArg Label.mk (UInt32.toNat_inj.mp hsame)

theorem instruction_eq_ok {i : Instruction} :
    instruction b id = .ok i ↔ b.instruction? id = some i := by
  unfold instruction
  cases b.instruction? id with
  | none => simp
  | some j => simp

end BytecodeIR.Conversion
