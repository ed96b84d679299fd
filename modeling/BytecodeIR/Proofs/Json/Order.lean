/-
The order of members.

An object is the list of its members as they are written, and most of what is done with
it does not depend on their order.  `Rearranged` says of two values that they differ in
the order of members only, at any depth.  Rearranging a value leaves its depth as it is.

Sorting is a rearrangement, but only if no object has two members of one name: of
these it would keep the last.  `Distinct` says that there is no such object.
-/
import BytecodeIR.Proofs.Json.Text
import BytecodeIR.Proofs.SortedMap
import BytecodeIR.Proofs.Success
import Mathlib.Data.List.Forall2
import Mathlib.Data.List.Perm.Basic

namespace BytecodeIR.Json

/-! ### Rearranged values

The relation allows another order at every depth at once: the members of an object are
rearranged one by one and then permuted.  To read a member out of such an object, the
list is split at it; `split` says that the other list splits alike.
-/

mutual

/-- Two values differ in the order of members only. -/
inductive Rearranged : Json → Json → Prop
  | null : Rearranged .null .null
  | bool (b : Bool) : Rearranged (.bool b) (.bool b)
  | number (n : Number) : Rearranged (.number n) (.number n)
  | string (s : String) : Rearranged (.string s) (.string s)
  | array {js is : List Json} (h : List.Forall₂ Rearranged js is) :
      Rearranged (.array js) (.array is)
  | object {ms ns os : List (String × Json)} (h : List.Forall₂ RearrangedValue ms ns)
      (hperm : ns.Perm os) : Rearranged (.object ms) (.object os)

/-- Two members have one name, and their values differ in the order of members only. -/
inductive RearrangedValue : String × Json → String × Json → Prop
  | of {name : String} {j i : Json} (h : Rearranged j i) : RearrangedValue (name, j) (name, i)

end

/-- The members of an object in another order, their values rearranged. -/
def RearrangedMembers (ms os : List (String × Json)) : Prop :=
  ∃ ns, List.Forall₂ RearrangedValue ms ns ∧ ns.Perm os

variable {j i : Json} {js is : List Json} {ms os a b : List (String × Json)} {name : String}

theorem rearranged_array :
    Rearranged (.array js) i ↔ ∃ is, i = .array is ∧ List.Forall₂ Rearranged js is := by
  constructor
  · intro h
    cases h with
    | array h => exact ⟨_, rfl, h⟩
  · intro h
    obtain ⟨is, rfl, h⟩ := h
    exact .array h

theorem rearranged_object :
    Rearranged (.object ms) i ↔ ∃ os, i = .object os ∧ RearrangedMembers ms os := by
  constructor
  · intro h
    cases h with
    | object h hperm => exact ⟨_, rfl, _, h, hperm⟩
  · intro h
    obtain ⟨os, rfl, ns, h, hperm⟩ := h
    exact .object h hperm

theorem rearranged_null_iff (h : Rearranged j i) : i = .null ↔ j = .null := by
  cases h <;> simp

namespace RearrangedMembers

theorem names (h : RearrangedMembers ms os) : (ms.map (·.1)).Perm (os.map (·.1)) := by
  obtain ⟨ns, hns, hperm⟩ := h
  have hnames : ms.map (·.1) = ns.map (·.1) := by
    clear hperm
    induction hns with
    | nil => rfl
    | cons hvalue _ ih =>
        cases hvalue
        exact congrArg (List.cons _) ih
  rw [hnames]
  exact hperm.map _

theorem eq_nil (h : RearrangedMembers [] os) : os = [] := by
  obtain ⟨ns, hns, hperm⟩ := h
  cases hns
  exact List.nil_perm.mp hperm

/-- **Wherever a member is put, the others are rearranged around it.** -/
theorem split (h : RearrangedMembers (a ++ (name, j) :: b) os) : ∃ l r i,
    os = l ++ (name, i) :: r ∧ Rearranged j i ∧ RearrangedMembers (a ++ b) (l ++ r) := by
  obtain ⟨ns, hns, hperm⟩ := h
  obtain ⟨a', rest, rfl, ha, hrest⟩ := forall₂_append_left hns
  obtain ⟨m, b', hm, hb, rfl⟩ := List.forall₂_cons_left_iff.mp hrest
  cases hm with
  | @of _ _ i hi =>
    have hmem : (name, i) ∈ os := hperm.subset (by simp)
    obtain ⟨l, r, rfl⟩ := List.append_of_mem hmem
    refine ⟨l, r, i, rfl, hi, a' ++ b', List.rel_append ha hb, ?_⟩
    exact (List.perm_middle.symm.trans (hperm.trans List.perm_middle)).cons_inv

end RearrangedMembers

/-! ### Depth

The depth of an object is a maximum over its members, which no order can change.
-/

theorem itemsDepth_eq
    (h : List.Forall₂ (fun j i => (Document.ofJson i).depth = (Document.ofJson j).depth) js is) :
    Document.itemsDepth (Document.ofItems is) = Document.itemsDepth (Document.ofItems js) := by
  induction h with
  | nil => rfl
  | cons hj _ ih =>
    rw [Document.ofItems, Document.ofItems, Document.itemsDepth, Document.itemsDepth, hj, ih]

theorem membersDepth_eq
    (h : List.Forall₂ (fun m n => (Document.ofJson n.2).depth = (Document.ofJson m.2).depth)
      ms os) :
    Document.membersDepth (Document.ofMembers os) =
      Document.membersDepth (Document.ofMembers ms) := by
  induction h with
  | nil => rfl
  | cons hm _ ih =>
    rw [Document.ofMembers, Document.ofMembers, Document.membersDepth, Document.membersDepth, hm,
      ih]

theorem membersDepth_eq_of_perm (h : ms.Perm os) :
    Document.membersDepth (Document.ofMembers ms) =
      Document.membersDepth (Document.ofMembers os) := by
  induction h with
  | nil => rfl
  | cons m _ ih => rw [Document.ofMembers, Document.ofMembers, Document.membersDepth, ih]; rfl
  | swap m n ms => simp only [Document.ofMembers, Document.membersDepth, Nat.max_left_comm]
  | trans _ _ ih ih' => exact ih.trans ih'

/-- Rearranging a value leaves its depth as it is. -/
theorem Rearranged.depth_eq (h : Rearranged j i) :
    (Document.ofJson i).depth = (Document.ofJson j).depth := by
  induction j using induct generalizing i with
  | null => cases h; rfl
  | bool b => cases h; rfl
  | number n => cases h; rfl
  | string s => cases h; rfl
  | array items ih =>
    obtain ⟨is, rfl, his⟩ := rearranged_array.mp h
    have hitems := (List.forall₂_and_left items is).mpr ⟨fun _ hj => hj, his⟩
    rw [Document.ofJson, Document.ofJson, Document.depth, Document.depth,
      itemsDepth_eq (hitems.imp fun j i hj => ih j hj.1 hj.2)]
  | object members ih =>
    obtain ⟨os, rfl, ns, hns, hperm⟩ := rearranged_object.mp h
    have hmembers := (List.forall₂_and_left members ns).mpr ⟨fun _ hm => hm, hns⟩
    have hvalues : List.Forall₂
        (fun m n => (Document.ofJson n.2).depth = (Document.ofJson m.2).depth) members ns := by
      refine hmembers.imp fun m n hm => ?_
      obtain ⟨hmem, hvalue⟩ := hm
      cases hvalue with
      | of hj => exact ih _ hmem hj
    rw [Document.ofJson, Document.ofJson, Document.depth, Document.depth, ← membersDepth_eq hvalues,
      membersDepth_eq_of_perm hperm]

/-! ### Sorting

Sorting goes through a map, and a map keeps one entry for each name.
-/

mutual

/-- No object in a value has two members of one name. -/
def Distinct : Json → Prop
  | .array items => ItemsDistinct items
  | .object members => (members.map (·.1)).Nodup ∧ ValuesDistinct members
  | .null => True
  | .bool _ => True
  | .number _ => True
  | .string _ => True

/-- No object in the items of an array has two members of one name. -/
def ItemsDistinct : List Json → Prop
  | [] => True
  | j :: js => j.Distinct ∧ ItemsDistinct js

/-- No object in the values of an object has two members of one name. -/
def ValuesDistinct : List (String × Json) → Prop
  | [] => True
  | (_, j) :: ms => j.Distinct ∧ ValuesDistinct ms

end

theorem distinct_array : (Json.array js).Distinct ↔ ∀ j ∈ js, j.Distinct := by
  show ItemsDistinct js ↔ _
  induction js with
  | nil => simp [ItemsDistinct]
  | cons j js ih => rw [ItemsDistinct, ih, List.forall_mem_cons]

theorem distinct_object :
    (Json.object ms).Distinct ↔ (ms.map (·.1)).Nodup ∧ ∀ m ∈ ms, m.2.Distinct := by
  have hvalues : ValuesDistinct ms ↔ ∀ m ∈ ms, m.2.Distinct := by
    induction ms with
    | nil => simp [ValuesDistinct]
    | cons m ms ih => rw [ValuesDistinct, ih, List.forall_mem_cons]
  exact and_congr_right fun _ => hvalues

theorem sortedItems_eq_map (js : List Json) : sortedItems js = js.map sorted := by
  induction js with
  | nil => rfl
  | cons j js ih => rw [sortedItems, ih, List.map_cons]

theorem sortedMembers_eq_map (ms : List (String × Json)) :
    sortedMembers ms = ms.map fun m => (m.1, m.2.sorted) := by
  induction ms with
  | nil => rfl
  | cons m ms ih => rw [sortedMembers, ih, List.map_cons]

/-- **A value in which no two members of an object have one name is rearranged by sorting.** -/
theorem rearranged_sorted (h : j.Distinct) : Rearranged j j.sorted := by
  induction j using induct with
  | null => exact .null
  | bool b => exact .bool b
  | number n => exact .number n
  | string s => exact .string s
  | array items ih =>
    rw [sorted, sortedItems_eq_map]
    refine .array (List.forall₂_map_right_iff.mpr (List.forall₂_same.mpr fun j hj => ?_))
    exact ih j hj (distinct_array.mp h j hj)
  | object members ih =>
    obtain ⟨hnames, hvalues⟩ := distinct_object.mp h
    rw [sorted, sortedMembers_eq_map]
    refine .object (List.forall₂_map_right_iff.mpr (List.forall₂_same.mpr fun m hm => ?_))
      (SortedMap.perm_entries_ofList ?_).symm
    · exact .of (ih m hm (hvalues m hm))
    · rwa [List.map_map]

/-! ### Values in order

A value that sorting leaves as it is has its names in strictly increasing order at every
level, and so no name twice.  A sorted value is one, and every rearrangement of a value
without repeated names is sorted to the same.
-/

/-- Sorting leaves a value as it is. -/
def Ordered (j : Json) : Prop := j.sorted = j

theorem ordered_array : (Json.array js).Ordered ↔ ∀ j ∈ js, j.Ordered := by
  unfold Ordered
  rw [sorted, sortedItems_eq_map, Json.array.injEq]
  have hitems := List.map_inj_left (l := js) (f := sorted) (g := id)
  rwa [List.map_id] at hitems

theorem ordered_object : (Json.object ms).Ordered ↔
    (ms.Pairwise fun a b => compare a.1 b.1 = .lt) ∧ ∀ m ∈ ms, m.2.Ordered := by
  unfold Ordered
  rw [sorted, sortedMembers_eq_map, Json.object.injEq]
  have hpairwise : (ms.map fun m => (m.1, m.2.sorted)).Pairwise (fun a b => compare a.1 b.1 = .lt) ↔
      ms.Pairwise fun a b => compare a.1 b.1 = .lt := List.pairwise_map
  have hvalues : (ms.map fun m => (m.1, m.2.sorted)) = ms ↔ ∀ m ∈ ms, m.2.sorted = m.2 := by
    rw [← List.map_id ms, List.map_map, List.map_inj_left, List.map_id]
    exact forall₂_congr fun m _ => by simp [Prod.ext_iff]
  constructor
  · intro h
    have hms : ms.Pairwise fun a b => compare a.1 b.1 = .lt := h ▸ SortedMap.increasing _
    rw [sortMembers, SortedMap.entries_ofList (hpairwise.mpr hms)] at h
    exact ⟨hms, hvalues.mp h⟩
  · rintro ⟨hms, h⟩
    rw [sortMembers, SortedMap.entries_ofList (hpairwise.mpr hms), hvalues.mpr h]

/-- **Sorting puts a value in order.** -/
theorem ordered_sorted (j : Json) : j.sorted.Ordered := by
  induction j using induct with
  | null => rfl
  | bool b => rfl
  | number n => rfl
  | string s => rfl
  | array items ih =>
    rw [sorted, sortedItems_eq_map]
    exact ordered_array.mpr (List.forall_mem_map.mpr ih)
  | object members ih =>
    rw [sorted, sortedMembers_eq_map]
    refine ordered_object.mpr ⟨SortedMap.increasing _, fun m hm => ?_⟩
    obtain ⟨m, hmem, rfl⟩ := List.mem_map.mp (SortedMap.mem_of_mem_ofList hm)
    exact ih m hmem

/-- A value in order has no name twice. -/
theorem Ordered.distinct (h : j.Ordered) : j.Distinct := by
  induction j using induct with
  | null => trivial
  | bool b => trivial
  | number n => trivial
  | string s => trivial
  | array items ih => exact distinct_array.mpr fun j hj => ih j hj (ordered_array.mp h j hj)
  | object members ih =>
    obtain ⟨hnames, hvalues⟩ := ordered_object.mp h
    exact distinct_object.mpr
      ⟨SortedMap.nodup_keys ⟨members, hnames⟩, fun m hm => ih m hm (hvalues m hm)⟩

/-- **Rearranging a value does not change what it is sorted to.** -/
theorem sorted_of_rearranged (hdistinct : j.Distinct) (h : Rearranged j i) :
    i.sorted = j.sorted := by
  induction j using induct generalizing i with
  | null => cases h; rfl
  | bool b => cases h; rfl
  | number n => cases h; rfl
  | string s => cases h; rfl
  | array items ih =>
    obtain ⟨is, rfl, his⟩ := rearranged_array.mp h
    have hitems : is.map sorted = items.map sorted := by
      rw [eq_comm, ← List.forall₂_eq_eq_eq, List.forall₂_map_left_iff, List.forall₂_map_right_iff]
      refine ((List.forall₂_and_left items is).mpr ⟨fun _ hj => hj, his⟩).imp fun j i hji => ?_
      exact (ih j hji.1 (distinct_array.mp hdistinct j hji.1) hji.2).symm
    rw [sorted, sorted, sortedItems_eq_map, sortedItems_eq_map, hitems]
  | object members ih =>
    obtain ⟨os, rfl, ns, hns, hperm⟩ := rearranged_object.mp h
    obtain ⟨hnames, hvalues⟩ := distinct_object.mp hdistinct
    have hmembers :
        (ns.map fun m => (m.1, m.2.sorted)) = members.map fun m => (m.1, m.2.sorted) := by
      rw [eq_comm, ← List.forall₂_eq_eq_eq, List.forall₂_map_left_iff, List.forall₂_map_right_iff]
      refine ((List.forall₂_and_left members ns).mpr ⟨fun _ hm => hm, hns⟩).imp fun m n hmn => ?_
      obtain ⟨hmem, hvalue⟩ := hmn
      cases hvalue with
      | of hj => rw [ih _ hmem (hvalues _ hmem) hj]
    have hdistinct' : ((os.map fun m => (m.1, m.2.sorted)).map (·.1)).Nodup := by
      rw [List.map_map]
      exact (RearrangedMembers.names ⟨ns, hns, hperm⟩).nodup_iff.mp hnames
    rw [sorted, sorted, sortedMembers_eq_map, sortedMembers_eq_map, ← hmembers, sortMembers,
      sortMembers, SortedMap.ofList_eq_of_perm (hperm.symm.map _) hdistinct']

/-- A value is a rearrangement of itself. -/
theorem Rearranged.rfl : Rearranged j j := by
  induction j using induct with
  | null => exact .null
  | bool b => exact .bool b
  | number n => exact .number n
  | string s => exact .string s
  | array items ih => exact .array (List.forall₂_same.mpr ih)
  | object members ih =>
    exact .object (List.forall₂_same.mpr fun m hm => .of (ih m hm)) (List.Perm.refl _)

end BytecodeIR.Json
