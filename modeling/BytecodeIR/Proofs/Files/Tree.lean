/-
What is written into a file is read from it, and no other file changes.

A write puts one entry into the tree and takes away none.  The place of the entry
holds no directory before, so every directory that the path leads through is still
one afterwards, and the path leads to the same place.
-/
import BytecodeIR.Files.Tree
import BytecodeIR.Proofs.SortedMap
import BytecodeIR.Proofs.Success

namespace BytecodeIR

instance : Std.LawfulEqOrd Component where
  compare_self := Std.ReflOrd.compare_self
  eq_of_compare {a b} h := by
    have hkey : a.key = b.key := by
      have hlex : (lexOrd : Ord (Nat × String)).compare a.key b.key = .eq := h
      exact Std.LawfulEqCmp.eq_of_compare hlex
    cases a <;> cases b <;> simp_all [Component.key]

namespace Tree

variable {t t' : Tree}

theorem enter_eq_ok {place : Place} :
    t.enter place = .ok () ↔ t.entry? place = some .directory := by
  unfold enter
  split
  · simp_all
  · simp_all
  · simp_all

/-- An entry that is put at a place is what stands there, and nothing else changes. -/
theorem entry?_insert {place other : Place} {e : Entry} (hplace : place.isAbove = false) :
    entry? (t.insert place e) other = if other = place then some e else t.entry? other := by
  unfold entry? insert
  by_cases hother : other = place
  · rw [if_pos hother, hother, hplace, SortedMap.get?_insert, Std.ReflOrd.compare_self]
    rfl
  · have hne : compare other place ≠ .eq := fun h => hother (Std.LawfulEqOrd.eq_of_compare h)
    rw [if_neg hother, SortedMap.get?_insert, if_neg hne]

/-- Pieces of a path lead to the same place in a tree that has at least the same directories. -/
theorem follow_of_directories
    (h : ∀ place, t.entry? place = some .directory → t'.entry? place = some .directory)
    {start place : Place} {pieces : List String} (hfollow : t.follow start pieces = .ok place) :
    t'.follow start pieces = .ok place := by
  induction pieces generalizing start with
  | nil => exact hfollow
  | cons piece rest ih =>
      obtain ⟨⟨⟩, henter, hstep⟩ := bind_eq_ok.mp hfollow
      have henter' : t'.enter start = .ok () := enter_eq_ok.mpr (h start (enter_eq_ok.mp henter))
      refine bind_eq_ok.mpr ⟨(), henter', ?_⟩
      split at hstep
      · cases hstep
      · rename_i hshort
        rw [if_neg hshort]
        exact ih hstep

/-! ### Writing -/

/-- One tree is another in which a file holds a text: the path reads as the text, and nothing else
has changed. -/
structure Replaces (t t' : Tree) (p : Path) (text : String) : Prop where
  read : t'.read p = .ok text
  /-- Only the place where the path leads to may hold something else than before. -/
  others : ∃ place, t.place p = .ok place ∧
    ∀ other, other ≠ place → t'.entry? other = t.entry? other

/-- A write that succeeds puts a file where the path leads to, and no directory stands there. -/
theorem exists_insert_of_write {p : Path} {text : String} (h : t.write p text = .ok t') :
    ∃ place, t.place p = .ok place ∧ p.endsInSlash = false ∧ t.entry? place ≠ some .directory ∧
      t' = t.insert place (.file (Text.encode text)) := by
  unfold write at h
  obtain ⟨start, hstart, h⟩ := bind_eq_ok.mp h
  split at h
  · obtain ⟨above, -, h⟩ := bind_eq_ok.mp h
    obtain ⟨⟨⟩, -, h⟩ := bind_eq_ok.mp h
    cases h
  rename_i hslash
  obtain ⟨place, hfollow, h⟩ := bind_eq_ok.mp h
  split at h
  · cases h
  rename_i hdirectory
  exact ⟨place, bind_eq_ok.mpr ⟨start, hstart, hfollow⟩, by simpa using hslash, hdirectory,
    (Except.ok.inj h).symm⟩

/-- **What is written into a file is read from it, and nothing else is changed.** -/
theorem replaces_of_write {p : Path} {text : String} (h : t.write p text = .ok t') :
    Replaces t t' p text := by
  obtain ⟨place, hplace, hslash, hdirectory, rfl⟩ := exists_insert_of_write h
  have habove : place.isAbove = false := by
    by_contra habove
    exact hdirectory (if_pos (by simpa using habove))
  have hkeep : ∀ other, t.entry? other = some .directory →
      entry? (t.insert place (.file (Text.encode text))) other = some .directory := by
    intro other hother
    rw [entry?_insert habove, if_neg, hother]
    rintro rfl
    exact hdirectory hother
  obtain ⟨start, hstart, hfollow⟩ := bind_eq_ok.mp hplace
  have hplace' : (t.insert place (.file (Text.encode text))).place p = .ok place :=
    bind_eq_ok.mpr ⟨start, hstart, follow_of_directories hkeep hfollow⟩
  refine ⟨bind_eq_ok.mpr ⟨place, hplace', ?_⟩, place, hplace, fun other hother => ?_⟩
  · rw [entry?_insert habove, if_pos rfl]
    simp only [hslash, Bool.false_eq_true, if_false, Text.decode?_encode]
  · rw [entry?_insert habove, if_neg hother]

end Tree

end BytecodeIR
