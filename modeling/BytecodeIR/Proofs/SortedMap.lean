/-
What can be read out of a sorted map.

A map is its list of entries, so looking a key up finds the entry that has it and
nothing else, and writing an entry changes what is found under its own key and
under no other.  Two maps in which the same is found under every key are equal.

Building a map from a list that is in order already gives that list back: this is
why a map survives being written entry by entry and read again.  In a map of any
list the last entry with a key is found, and where entries are put only under keys that
have none, the first.
-/
import BytecodeIR.SortedMap
import Mathlib.Data.List.Nodup

namespace BytecodeIR.SortedMap

variable {κ ν : Type} [Ord κ]

@[ext] theorem ext {m m' : SortedMap κ ν} (h : m.entries = m'.entries) : m = m' := by
  cases m
  cases m'
  cases h
  rfl

section Find

variable {entries : List (κ × ν)} {k k' : κ} {v : ν}

theorem findEntry_cons (k : κ) (e : κ × ν) (rest : List (κ × ν)) :
    findEntry k (e :: rest) = if compare k e.1 = .eq then some e.2 else findEntry k rest := by
  unfold findEntry
  rw [List.find?_cons]
  by_cases h : compare k e.1 = .eq
  · simp [h]
  · have hne : (compare k e.1 == .eq) = false := by simpa using h
    rw [hne, if_neg h]

theorem findEntry_append (k : κ) (before after : List (κ × ν)) :
    findEntry k (before ++ after) = (findEntry k before).or (findEntry k after) := by
  unfold findEntry
  rw [List.find?_append, Option.map_or]

/-- Nothing is found under a key that comes before all others. -/
theorem findEntry_of_lt (h : ∀ e ∈ entries, compare k e.1 = .lt) : findEntry k entries = none := by
  induction entries with
  | nil => rfl
  | cons e rest ih =>
      obtain ⟨hhead, htail⟩ := List.forall_mem_cons.mp h
      rw [findEntry_cons, if_neg (by rw [hhead]; simp), ih htail]

theorem mem_of_findEntry [Std.LawfulEqOrd κ] (h : findEntry k entries = some v) :
    (k, v) ∈ entries := by
  induction entries with
  | nil => cases h
  | cons e rest ih =>
      rw [findEntry_cons] at h
      split at h
      · rename_i heq
        rw [Std.LawfulEqOrd.eq_of_compare heq, ← Option.some.inj h]
        exact List.mem_cons_self
      · exact List.mem_cons_of_mem _ (ih h)

/-- If no two entries have one key, the order in which a key is looked up does not matter. -/
theorem findEntry_eq_some [Std.LawfulEqOrd κ] {entries : List (κ × ν)}
    (h : (entries.map (·.1)).Nodup) : findEntry k entries = some v ↔ (k, v) ∈ entries := by
  refine ⟨mem_of_findEntry, fun hmem => ?_⟩
  induction entries with
  | nil => simp at hmem
  | cons e rest ih =>
      obtain ⟨hnew, hrest⟩ := List.nodup_cons.mp h
      rw [findEntry_cons]
      rcases List.mem_cons.mp hmem with rfl | hmem
      · rw [if_pos Std.ReflCmp.compare_self]
      · have hne : compare k e.1 ≠ .eq := fun heq =>
          hnew (List.mem_map.mpr ⟨_, hmem, Std.LawfulEqOrd.eq_of_compare heq⟩)
        rw [if_neg hne, ih hrest hmem]

variable [Std.TransOrd κ]

theorem findEntry_of_mem (hs : entries.Pairwise fun a b => compare a.1 b.1 = .lt)
    (h : (k, v) ∈ entries) : findEntry k entries = some v := by
  induction entries with
  | nil => simp at h
  | cons e rest ih =>
      obtain ⟨hhead, htail⟩ := List.pairwise_cons.mp hs
      rw [findEntry_cons]
      rcases List.mem_cons.mp h with rfl | hmem
      · rw [if_pos Std.ReflCmp.compare_self]
      · have hlt := hhead _ hmem
        rw [if_neg (by rw [Std.OrientedCmp.gt_of_lt hlt]; simp), ih htail hmem]

/-- Writing an entry changes what is found under its key and under no other. -/
theorem findEntry_upsertEntry {f : Option ν → ν}
    (hs : entries.Pairwise fun a b => compare a.1 b.1 = .lt) :
    findEntry k' (upsertEntry k f entries) =
      if compare k' k = .eq then some (f (findEntry k entries)) else findEntry k' entries := by
  induction entries with
  | nil => rw [upsertEntry, findEntry_cons]; rfl
  | cons e rest ih =>
      obtain ⟨k₀, v₀⟩ := e
      obtain ⟨hhead, htail⟩ := List.pairwise_cons.mp hs
      unfold upsertEntry
      split
      · rename_i hlt
        have hnone : findEntry k ((k₀, v₀) :: rest) = none :=
          findEntry_of_lt (List.forall_mem_cons.mpr
            ⟨hlt, fun e he => Std.TransCmp.lt_trans hlt (hhead e he)⟩)
        rw [findEntry_cons, hnone]
      · rename_i heq
        rw [findEntry_cons, findEntry_cons, findEntry_cons, if_pos heq]
        by_cases h : compare k' k = .eq
        · rw [if_pos h, if_pos h]
        · have h₀ : compare k' k₀ ≠ .eq := fun h₀ =>
            h (Std.TransCmp.eq_trans h₀ (Std.OrientedCmp.eq_symm heq))
          rw [if_neg h, if_neg h, if_neg h₀]
      · rename_i hgt
        have hne : compare k k₀ ≠ .eq := by rw [hgt]; simp
        rw [findEntry_cons, findEntry_cons, findEntry_cons, if_neg hne, ih htail]
        by_cases h₀ : compare k' k₀ = .eq
        · have h : compare k' k ≠ .eq := fun h =>
            hne (Std.TransCmp.eq_trans (Std.OrientedCmp.eq_symm h) h₀)
          rw [if_pos h₀, if_neg h, if_pos h₀]
        · simp only [if_neg h₀]

end Find

variable [Std.TransOrd κ] {m : SortedMap κ ν} {k k' : κ} {v : ν}

theorem get?_eq_some [Std.LawfulEqOrd κ] : m.get? k = some v ↔ (k, v) ∈ m.entries :=
  ⟨mem_of_findEntry, findEntry_of_mem m.increasing⟩

theorem get?_upsert {f : Option ν → ν} :
    (m.upsert k f).get? k' = if compare k' k = .eq then some (f (m.get? k)) else m.get? k' :=
  findEntry_upsertEntry m.increasing

theorem get?_insert : (m.insert k v).get? k' = if compare k' k = .eq then some v else m.get? k' :=
  get?_upsert

/-- What stands under a key stays there; what is put under it counts where nothing stood. -/
theorem get?_insertNew [Std.LawfulEqOrd κ] :
    (m.insertNew k v).get? k' = (m.get? k').or (if compare k' k = .eq then some v else none) := by
  unfold insertNew
  rw [get?_upsert]
  split
  · rename_i heq
    rw [Std.LawfulEqOrd.eq_of_compare heq]
    cases m.get? k with
    | none => rfl
    | some old => rfl
  · rw [Option.or_none]

theorem mem_keys_iff [Std.LawfulEqOrd κ] : k ∈ m.keys ↔ ∃ v, m.get? k = some v := by
  simp [keys, get?_eq_some]

theorem mem_keys_insert [Std.LawfulEqOrd κ] : k' ∈ (m.insert k v).keys ↔ k' = k ∨ k' ∈ m.keys := by
  simp only [mem_keys_iff, get?_insert]
  by_cases h : k' = k
  · simp [h, Std.ReflCmp.compare_self]
  · have hne : compare k' k ≠ .eq := fun heq => h (Std.LawfulEqOrd.eq_of_compare heq)
    simp only [if_neg hne, h, false_or]

/-- No key has two entries. -/
theorem nodup_keys (m : SortedMap κ ν) : m.keys.Nodup := by
  refine List.Pairwise.map _ (fun a b hlt hsame => ?_) m.increasing
  have heq : compare a.1 b.1 = .eq := by rw [hsame]; exact Std.ReflCmp.compare_self
  rw [heq] at hlt
  cases hlt

/-- Maps with the same entries are equal. -/
theorem ext_perm {m' : SortedMap κ ν} (h : m.entries.Perm m'.entries) : m = m' := by
  refine ext (List.Perm.eq_of_pairwise (fun a b _ _ hab hba => ?_) m.increasing m'.increasing h)
  rw [Std.OrientedCmp.gt_of_lt hab] at hba
  cases hba

/-- Nothing but what stands under its keys can be observed of a map. -/
theorem ext_get? [Std.LawfulEqOrd κ] {m' : SortedMap κ ν} (h : ∀ k, m.get? k = m'.get? k) :
    m = m' := by
  have hnodup : ∀ m : SortedMap κ ν, m.entries.Nodup := fun m => List.Nodup.of_map _ m.nodup_keys
  refine ext_perm ((List.perm_ext_iff_of_nodup (hnodup m) (hnodup m')).mpr fun e => ?_)
  rw [← get?_eq_some (m := m), ← get?_eq_some (m := m'), h]

/-! ### Building a map of entries in order

An entry whose key comes after all others is put at the end, so writing entries in order
appends them one by one.  The entries of a map are in order, and writing them anew gives
the map.
-/

private theorem upsertEntry_last {entries : List (κ × ν)}
    (h : ∀ e ∈ entries, compare e.1 k = .lt) :
    upsertEntry k (fun _ => v) entries = entries ++ [(k, v)] := by
  induction entries with
  | nil => rfl
  | cons e rest ih =>
      obtain ⟨k₀, v₀⟩ := e
      have hgt : compare k k₀ = .gt := Std.OrientedCmp.gt_of_lt (h _ List.mem_cons_self)
      rw [upsertEntry]
      simp only [hgt]
      rw [ih fun e he => h e (List.mem_cons_of_mem _ he)]
      rfl

private theorem entries_foldl_insert {entries : List (κ × ν)} {m : SortedMap κ ν}
    (h : (m.entries ++ entries).Pairwise fun a b => compare a.1 b.1 = .lt) :
    (entries.foldl (fun m e => m.insert e.1 e.2) m).entries = m.entries ++ entries := by
  induction entries generalizing m with
  | nil => simp
  | cons e rest ih =>
      have hlast : (m.insert e.1 e.2).entries = m.entries ++ [e] :=
        upsertEntry_last fun a ha =>
          (List.pairwise_append.mp h).2.2 a ha e List.mem_cons_self
      have hsame : (m.insert e.1 e.2).entries ++ rest = m.entries ++ e :: rest := by
        rw [hlast, List.append_assoc, List.singleton_append]
      rw [List.foldl_cons, ih (by rw [hsame]; exact h), hsame]

/-- The map of entries in order has these entries. -/
theorem entries_ofList {entries : List (κ × ν)}
    (h : entries.Pairwise fun a b => compare a.1 b.1 = .lt) :
    (ofList entries).entries = entries :=
  entries_foldl_insert (by simpa [empty] using h)

@[simp] theorem ofList_entries (m : SortedMap κ ν) : ofList m.entries = m :=
  ext (entries_ofList m.increasing)

/-! ### Building a map of any entries

The later entry wins when entries are written one over the other, so looking a key up in
the map is looking it up in the list from behind.  Everything else about the map follows
from this by comparing what is found.
-/

private theorem get?_foldl_insert {entries : List (κ × ν)} :
    (entries.foldl (fun m e => m.insert e.1 e.2) m).get? k =
      (findEntry k entries.reverse).or (m.get? k) := by
  induction entries generalizing m with
  | nil => rfl
  | cons e rest ih =>
      rw [List.foldl_cons, ih, get?_insert, List.reverse_cons, findEntry_append, Option.or_assoc,
        findEntry_cons]
      by_cases h : compare k e.1 = .eq
      · simp only [if_pos h, Option.some_or]
      · simp only [if_neg h]
        rfl

/-- **In a map of a list of entries the last entry with a key is found.** -/
theorem get?_ofList {entries : List (κ × ν)} :
    (ofList entries).get? k = findEntry k entries.reverse :=
  get?_foldl_insert.trans (Option.or_none)

/-- **A map of entries without a common key has these entries, in some order.** -/
theorem perm_entries_ofList [Std.LawfulEqOrd κ] {entries : List (κ × ν)}
    (h : (entries.map (·.1)).Nodup) : (ofList entries).entries.Perm entries := by
  have hnodup : (ofList entries).entries.Nodup := .of_map _ (nodup_keys _)
  refine (List.perm_ext_iff_of_nodup hnodup (.of_map _ h)).mpr fun e => ?_
  have hreverse : (entries.reverse.map (·.1)).Nodup := by
    rw [List.map_reverse]
    exact List.nodup_reverse.mpr h
  rw [← get?_eq_some, get?_ofList, findEntry_eq_some hreverse, List.mem_reverse]

/-- The order of entries without a common key does not matter to the map made of them. -/
theorem ofList_eq_of_perm [Std.LawfulEqOrd κ] {entries entries' : List (κ × ν)}
    (hperm : entries.Perm entries') (h : (entries.map (·.1)).Nodup) :
    ofList entries = ofList entries' := by
  have h' : (entries'.map (·.1)).Nodup := (hperm.map _).nodup_iff.mp h
  exact ext_perm ((perm_entries_ofList h).trans (hperm.trans (perm_entries_ofList h').symm))

/-- **Of entries that are put where nothing stands, the first with a key is found.** -/
theorem get?_foldl_insertNew [Std.LawfulEqOrd κ] {entries : List (κ × ν)} :
    (entries.foldl (fun m e => m.insertNew e.1 e.2) m).get? k =
      (m.get? k).or (findEntry k entries) := by
  induction entries generalizing m with
  | nil => exact Option.or_none.symm
  | cons e rest ih =>
      rw [List.foldl_cons, ih, get?_insertNew, findEntry_cons, Option.or_assoc]
      split
      · rw [Option.some_or]
      · rw [Option.none_or]

/-- A map that is made of entries has no others. -/
theorem mem_of_mem_ofList [Std.LawfulEqOrd κ] {entries : List (κ × ν)} {e : κ × ν}
    (h : e ∈ (ofList entries).entries) : e ∈ entries := by
  have hfind : findEntry e.1 entries.reverse = some e.2 := by
    rw [← get?_ofList]
    exact get?_eq_some.mpr h
  exact List.mem_reverse.mp (mem_of_findEntry hfind)

end BytecodeIR.SortedMap
