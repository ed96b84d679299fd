/-
A switch goes where it went.

A switch is written in one of two ways: with a value for each of its targets, or with
two bounds and a target for each position between them.  What it is converted to is
in both cases a list of values with labels, of which the first entry with the value of
the key counts.  So there are two things to show of that list: for every value it has
the label of the instruction that the switch went to, and for a switch with bounds it
has the values between them, one after another, with none left out.

The positions are counted in unbounded integers while the values have 32 bits.  They
agree because a position is counted no farther than to the upper bound, and so none of
them wraps around, whatever the bounds are.  That every value between the bounds has a
target, and every target a value, is checked before any case is made.
-/
import BytecodeIR.Proofs.Conversion.Statement

namespace BytecodeIR

namespace Dump

/-- The instruction that a switch by value goes to: the first of its values that the key has counts,
and its place is that of the target. -/
def Instruction.selectByValue (i : Instruction) (v : Int32) : Option InstructionId :=
  match i.lookupValues.findIdx? (· == v) with
  | some k => i.targets[k]?
  | none => i.defaultTarget

/-- The instruction that a switch by position goes to: between the bounds the targets are counted
from the lower one. -/
def Instruction.selectByPosition (i : Instruction) (low high v : Int32) : Option InstructionId :=
  if low ≤ v ∧ v ≤ high then i.targets[(v.toInt - low.toInt).toNat]? else i.defaultTarget

/-- Whether an instruction is a switch of either kind. -/
def Instruction.isSwitch (i : Instruction) : Bool :=
  InstructionKind.ofName? i.kind = some .lookupSwitch ∨
    InstructionKind.ofName? i.kind = some .tableSwitch

/-- A switch by position has another number of targets than there are positions. -/
def Instruction.Miscounted (i : Instruction) : Prop :=
  InstructionKind.ofName? i.kind = some .tableSwitch ∧ ∃ low high, i.low = some low ∧
    i.high = some high ∧ (i.targets.length : Int) ≠ high.toInt - low.toInt + 1

end Dump

namespace Code

/-- The label that a list of values and labels gives for a value: that of the first entry with it. -/
def choose (lookup : List (Int32 × Label)) (default : Label) (v : Int32) : Label :=
  (lookup.lookup v).getD default

end Code

namespace Conversion

open Code (Action Label Value choose)
open Dump (Body Instruction InstructionId InstructionKind)

/-! ### Switches by value -/

/-- What is found in values that are paired with others is what stands at the place of the first
such value. -/
theorem lookup_zip {α β : Type} [BEq α] [LawfulBEq α] {keys : List α} {xs : List β}
    (h : keys.length = xs.length) (v : α) :
    (keys.zip xs).lookup v = (keys.findIdx? (· == v)).bind (xs[·]?) := by
  induction keys generalizing xs with
  | nil => rfl
  | cons k rest ih =>
      cases xs with
      | nil => cases h
      | cons x more =>
          have hmore : rest.length = more.length := Nat.succ.inj h
          rw [List.zip_cons_cons, List.lookup_cons, List.findIdx?_cons]
          by_cases hk : k = v
          · simp [hk]
          · have hkv : (v == k) = false := by simpa using Ne.symm hk
            have hvk : (k == v) = false := by simpa using hk
            simp only [hkv, hvk, Bool.false_eq_true, if_false, ih hmore]
            cases rest.findIdx? (· == v) <;> simp

/-! ### Switches by position -/

section Bounds

variable {low high : Int32}

theorem length_valuesBetween :
    (valuesBetween low high).length = (high.toInt - low.toInt + 1).toNat := by
  simp [valuesBetween]

/-- The value at a position is the position counted from the lower bound: nothing wraps around. -/
theorem toInt_value {k : Nat} (hk : k < (high.toInt - low.toInt + 1).toNat) :
    (Int32.ofInt (low.toInt + k)).toInt = low.toInt + k := by
  have hlow := Int32.le_toInt low
  have hhigh := Int32.toInt_lt high
  exact Int32.toInt_ofInt_of_le (by omega) (by omega)

theorem toInt_valuesBetween : (valuesBetween low high).map (·.toInt) =
    (List.range (high.toInt - low.toInt + 1).toNat).map fun k : Nat => low.toInt + (k : Int) := by
  rw [valuesBetween, List.map_map]
  exact List.map_congr_left fun k hk => toInt_value (List.mem_range.mp hk)

/-- A value between the bounds stands as far from the first as it is larger. -/
theorem findIdx?_valuesBetween (v : Int32) : (valuesBetween low high).findIdx? (· == v) =
    if low ≤ v ∧ v ≤ high then some (v.toInt - low.toInt).toNat else none := by
  have hsame : ∀ k < (high.toInt - low.toInt + 1).toNat,
      Int32.ofInt (low.toInt + k) = v ↔ low.toInt + (k : Int) = v.toInt := by
    intro k hk
    rw [← Int32.toInt_inj, toInt_value hk]
  simp only [Int32.le_iff_toInt_le]
  split
  · rename_i hv
    have hplace : (v.toInt - low.toInt).toNat < (high.toInt - low.toInt + 1).toNat := by omega
    refine List.findIdx?_eq_some_iff_getElem.mpr ⟨length_valuesBetween.symm ▸ hplace, ?_, ?_⟩
    · simp only [valuesBetween, List.getElem_map, List.getElem_range, beq_iff_eq]
      exact (hsame _ hplace).mpr (by omega)
    · intro k hk
      simp only [valuesBetween, List.getElem_map, List.getElem_range, beq_iff_eq]
      rw [hsame k (by omega)]
      omega
  · rename_i hv
    rw [List.findIdx?_eq_none_iff]
    intro w hw
    obtain ⟨k, hk, rfl⟩ := List.mem_map.mp hw
    have hk := List.mem_range.mp hk
    simp only [beq_eq_false_iff_ne, ne_eq]
    rw [hsame k hk]
    omega

end Bounds

/-! ### What a switch is converted to -/

section Dispatch

variable (b : Body) (i : Instruction)

/-- What is done instead of a switch goes, for every value of its key, to the label of the
instruction that the switch goes to. -/
inductive Dispatches : Action → Prop
  | byValue {key : Value} {lookup : List (Int32 × Label)} {default : Label}
      (hkind : InstructionKind.ofName? i.kind = some .lookupSwitch)
      (hselect : ∀ v, ∃ id, i.selectByValue v = some id ∧
        label b id = .ok (choose lookup default v)) :
      Dispatches (.lookupSwitch key lookup default)
  /-- The values between the bounds stand in the list one by one, each with the label of its
  target. -/
  | byPosition {key : Value} {low high : Int32} {targets : List Label}
      {lookup : List (Int32 × Label)} {default : Label}
      (hkind : InstructionKind.ofName? i.kind = some .tableSwitch)
      (hlow : i.low = some low) (hhigh : i.high = some high)
      (htargets : List.Forall₂ (fun id l => label b id = .ok l) i.targets targets)
      (hvalues : lookup.map (·.1.toInt) =
        (List.range (high.toInt - low.toInt + 1).toNat).map fun k : Nat => low.toInt + (k : Int))
      (hlabels : lookup.map (·.2) = targets)
      (hselect : ∀ v, ∃ id, i.selectByPosition low high v = some id ∧
        label b id = .ok (choose lookup default v)) :
      Dispatches (.tableSwitch key low high targets lookup default)

variable {b i} {dialect : Dialect} {here : Label} {kind : InstructionKind} {a : Action}
  {ids : List InstructionId} {targets : List Label} {default : Option InstructionId} {l : Label}

/-- A label that is found, or the one that counts if none is, belongs to what is found among the
instructions, or to the one that counts if none is. -/
theorem label_choose (htargets : List.Forall₂ (fun id l => label b id = .ok l) ids targets)
    {fallback : InstructionId} (hdefault : label b fallback = .ok l) (place : Option Nat)
    (hplace : ∀ k, place = some k → k < ids.length) :
    ∃ id, (match place with
        | some k => ids[k]?
        | none => some fallback) = some id ∧
      label b id = .ok ((place.bind (targets[·]?)).getD l) := by
  cases place with
  | none => exact ⟨fallback, rfl, hdefault⟩
  | some k =>
      have hid := List.getElem?_eq_getElem (hplace k rfl)
      obtain ⟨l', hl', hlabel⟩ := forall₂_exists_right htargets hid
      refine ⟨_, hid, ?_⟩
      rw [Option.bind_some, hl']
      exact hlabel

theorem Denotes.dispatches (hkind : InstructionKind.ofName? i.kind = some kind)
    (hi : i.isSwitch = true) (h : Denotes b i dialect here kind a) : Dispatches b i a := by
  cases h with
  | lookupSwitch hcount htargets hkey hl =>
      obtain ⟨id, hid, hlabel⟩ := defaultTarget_eq_ok.mp hl
      refine .byValue hkind fun v => ?_
      rw [choose, lookup_zip (hcount.trans htargets.length_eq)]
      unfold Instruction.selectByValue
      rw [hid]
      refine label_choose htargets hlabel _ fun k hk => ?_
      rw [← hcount]
      exact (List.findIdx?_eq_some_iff_getElem.mp hk).1
  | @tableSwitch low high targets key l hlow hhigh hcount htargets hkey hl =>
      obtain ⟨id, hid, hlabel⟩ := defaultTarget_eq_ok.mp hl
      have htotal : high.toInt - low.toInt + 1 = targets.length :=
        hcount.trans (congrArg Nat.cast htargets.length_eq)
      have hvalues : (valuesBetween low high).length = targets.length := by
        rw [length_valuesBetween, htotal, Int.toNat_natCast]
      refine .byPosition hkind hlow hhigh htargets ?_ (casesBetween_targets htotal) fun v => ?_
      · rw [← toInt_valuesBetween, ← List.map_fst_zip hvalues.le, List.map_map]
        rfl
      · rw [choose, casesBetween, lookup_zip hvalues, findIdx?_valuesBetween]
        unfold Instruction.selectByPosition
        rw [hid]
        split
        · rename_i hbetween
          rw [Int32.le_iff_toInt_le, Int32.le_iff_toInt_le] at hbetween
          exact label_choose htargets hlabel (some _) fun k hk => by
            obtain rfl := Option.some.inj hk
            omega
        · exact label_choose htargets hlabel none fun k hk => by cases hk
  | _ => simp [Instruction.isSwitch, hkind] at hi

/-- **A switch that is converted goes where it went for every value of its key, and a switch with
another number of targets than there are positions between its bounds is never converted.** -/
theorem statement_dispatches (b : Body) (i : Instruction) (dialect : Dialect) :
    (i.isSwitch = true → ∀ s, statement b i dialect = .ok s → Dispatches b i s.action) ∧
      (i.Miscounted → ∃ f, statement b i dialect = .error f) := by
  constructor
  · intro hi s h
    obtain ⟨here, kind, a, -, hkind, ha, rfl⟩ := statement_eq_ok.mp h
    exact (denotes_of_action ha).dispatches hkind hi
  · rintro ⟨hkind, low, high, hlow, hhigh, hcount⟩
    cases h : statement b i dialect with
    | error f => exact ⟨f, rfl⟩
    | ok s =>
        obtain ⟨here, kind, a, -, hkind', ha, rfl⟩ := statement_eq_ok.mp h
        obtain rfl : InstructionKind.tableSwitch = kind := Option.some.inj (hkind.symm.trans hkind')
        cases denotes_of_action ha with
        | tableSwitch hlow' hhigh' hcount' =>
            obtain rfl := Option.some.inj (hlow.symm.trans hlow')
            obtain rfl := Option.some.inj (hhigh.symm.trans hhigh')
            exact absurd hcount'.symm hcount

end Dispatch

/-- The local variable that the switches of `forkBody` select by. -/
def forkKey : Dump.Operand := .of { Dump.Slots.ofKind "Local" "int" with name := some "i" }

/-- A switch on the two greatest values of 32 bits. -/
def uppermostFork : Instruction :=
  { Instruction.ofKind ⟨0⟩ "JTableSwitchStmt" with
    key := some forkKey, low := some 2147483646, high := some 2147483647
    targets := [⟨3⟩, ⟨2⟩], defaultTarget := some ⟨4⟩ }

/-- A switch with a value that it has two targets for. -/
def repeatedFork : Instruction :=
  { Instruction.ofKind ⟨1⟩ "JLookupSwitchStmt" with
    key := some forkKey, lookupValues := [7, -1, 7]
    targets := [⟨4⟩, ⟨2⟩, ⟨3⟩], defaultTarget := some ⟨2⟩ }

/-- A switch on all values of 32 bits, with a single target. -/
def widestFork : Instruction :=
  { Instruction.ofKind ⟨0⟩ "JTableSwitchStmt" with
    key := some forkKey, low := some (-2147483648), high := some 2147483647
    targets := [⟨3⟩], defaultTarget := some ⟨4⟩ }

/-- Two switches and three instructions that they go to. -/
def forkBody : Body where
  instructions := [uppermostFork, repeatedFork, .ofKind ⟨4⟩ "JReturnVoidStmt",
    .ofKind ⟨2⟩ "JReturnVoidStmt", .ofKind ⟨3⟩ "JReturnVoidStmt"]
  blocks := []

theorem statement_dispatches_forks :
    (∃ s, statement forkBody uppermostFork .plain = .ok s ∧
      Dispatches forkBody uppermostFork s.action ∧
      s.action = .tableSwitch (.localVariable "i" "int") 2147483646 2147483647 [⟨4⟩, ⟨3⟩]
        [(2147483646, ⟨4⟩), (2147483647, ⟨3⟩)] ⟨2⟩) ∧
      (∃ s, statement forkBody repeatedFork .plain = .ok s ∧
        Dispatches forkBody repeatedFork s.action) ∧
      ∃ f, statement forkBody widestFork .plain = .error f :=
  ⟨⟨_, rfl, (statement_dispatches forkBody uppermostFork .plain).1 rfl _ rfl, rfl⟩,
    ⟨_, rfl, (statement_dispatches forkBody repeatedFork .plain).1 rfl _ rfl⟩,
    (statement_dispatches forkBody widestFork .plain).2 ⟨rfl, _, _, rfl, rfl, by decide⟩⟩

end Conversion

end BytecodeIR
