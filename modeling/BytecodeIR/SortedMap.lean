/-!
Finite maps in the order of their keys.

A map is the list of its entries, and the list is strictly increasing in the keys.  So a key has at
most one entry, two maps with the same entries are equal as values, and reading the entries off in
order is reading them off in the order of the keys: nothing else about a map can be observed.
-/

namespace BytecodeIR

/-- A map from keys to values, its entries standing in strictly increasing order of their keys. -/
structure SortedMap (κ ν : Type) [Ord κ] where
  /-- The entries, least key first. -/
  entries : List (κ × ν)
  /-- No key comes before or at an earlier one. -/
  increasing : entries.Pairwise fun a b => compare a.1 b.1 = .lt

namespace SortedMap

variable {κ ν : Type} [Ord κ]

instance [DecidableEq κ] [DecidableEq ν] : DecidableEq (SortedMap κ ν) := fun a b =>
  decidable_of_iff (a.entries = b.entries) <| by
    cases a
    cases b
    simp

/-- The map with no entry. -/
def empty : SortedMap κ ν := ⟨[], .nil⟩

instance : EmptyCollection (SortedMap κ ν) := ⟨empty⟩

instance : Inhabited (SortedMap κ ν) := ⟨empty⟩

/-- The keys, least first. -/
def keys (m : SortedMap κ ν) : List κ := m.entries.map (·.1)

/-- The values, in the order of their keys. -/
def values (m : SortedMap κ ν) : List ν := m.entries.map (·.2)

/-- Looks the key up among entries that may stand in any order. -/
def findEntry (k : κ) (entries : List (κ × ν)) : Option ν :=
  (entries.find? fun e => compare k e.1 == .eq).map (·.2)

/-- The value stored under a key. -/
def get? (m : SortedMap κ ν) (k : κ) : Option ν := findEntry k m.entries

/-- Puts `f old` in the place that the key has among increasing entries, `old` being the value that
stood there. -/
def upsertEntry (k : κ) (f : Option ν → ν) : List (κ × ν) → List (κ × ν)
  | [] => [(k, f none)]
  | (k', v) :: rest =>
    match compare k k' with
    | .lt => (k, f none) :: (k', v) :: rest
    | .eq => (k, f (some v)) :: rest
    | .gt => (k', v) :: upsertEntry k f rest

private theorem mem_upsertEntry {k : κ} {f : Option ν → ν} {entries : List (κ × ν)} {e : κ × ν}
    (h : e ∈ upsertEntry k f entries) : e.1 = k ∨ e ∈ entries := by
  induction entries with
  | nil => simp_all [upsertEntry]
  | cons hd rest ih =>
    obtain ⟨k', v⟩ := hd
    unfold upsertEntry at h
    split at h
    · rcases List.mem_cons.mp h with rfl | h
      · exact .inl rfl
      · exact .inr h
    · rcases List.mem_cons.mp h with rfl | h
      · exact .inl rfl
      · exact .inr (List.mem_cons_of_mem _ h)
    · rcases List.mem_cons.mp h with rfl | h
      · exact .inr List.mem_cons_self
      · exact (ih h).imp id (List.mem_cons_of_mem _)

/-- Writing an entry keeps the keys increasing. -/
theorem increasing_upsertEntry [Std.TransOrd κ] {k : κ} {f : Option ν → ν}
    {entries : List (κ × ν)} (h : entries.Pairwise fun a b => compare a.1 b.1 = .lt) :
    (upsertEntry k f entries).Pairwise fun a b => compare a.1 b.1 = .lt := by
  induction entries with
  | nil => simp [upsertEntry]
  | cons hd rest ih =>
    obtain ⟨k', v⟩ := hd
    have htail := List.pairwise_cons.mp h
    unfold upsertEntry
    split
    · rename_i hlt
      refine List.pairwise_cons.mpr ⟨fun e he => ?_, h⟩
      rcases List.mem_cons.mp he with rfl | he
      · exact hlt
      · exact Std.TransCmp.lt_trans hlt (htail.1 e he)
    · rename_i heq
      exact List.pairwise_cons.mpr
        ⟨fun e he => Std.TransCmp.lt_of_eq_of_lt heq (htail.1 e he), htail.2⟩
    · rename_i hgt
      refine List.pairwise_cons.mpr ⟨fun e he => ?_, ih htail.2⟩
      rcases mem_upsertEntry he with hk | he
      · rw [hk]
        exact Std.OrientedCmp.lt_of_gt hgt
      · exact htail.1 e he

variable [Std.TransOrd κ]

/-- Stores what `f` makes of the value that stands under the key. -/
def upsert (m : SortedMap κ ν) (k : κ) (f : Option ν → ν) : SortedMap κ ν :=
  ⟨upsertEntry k f m.entries, increasing_upsertEntry m.increasing⟩

/-- Stores a value under a key, in place of any that stands there. -/
def insert (m : SortedMap κ ν) (k : κ) (v : ν) : SortedMap κ ν := m.upsert k fun _ => v

/-- Stores a value under a key unless one stands there already. -/
def insertNew (m : SortedMap κ ν) (k : κ) (v : ν) : SortedMap κ ν :=
  m.upsert k fun old => old.getD v

/-- The map of a list of entries; of two entries with one key the later counts. -/
def ofList (entries : List (κ × ν)) : SortedMap κ ν :=
  entries.foldl (fun m e => m.insert e.1 e.2) empty

end SortedMap

end BytecodeIR
