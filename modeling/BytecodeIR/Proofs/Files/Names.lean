/-
The entries of a directory and their names.

Listing a directory gives the names of its entries and nothing else.  Every name in a
tree that was made by putting and writing files is one that an entry can have, because
the pieces of a path are the only names that ever come into it.
-/
import BytecodeIR.Proofs.Files.Path
import BytecodeIR.Proofs.Files.Tree

namespace BytecodeIR

namespace Place

variable {place : Place} {piece : String} {p : Path}

/-- Every name that leads to a place is one that an entry can have. -/
def WellNamed (place : Place) : Prop := ∀ name, .name name ∈ place → Path.IsName name

theorem wellNamed_nil : WellNamed [] := fun _ h => nomatch h

theorem wellNamed_of_start (h : p.start = .ok place) : place.WellNamed := by
  unfold Path.start at h
  split_ifs at h
  all_goals
    obtain rfl := Except.ok.inj h
    simp [WellNamed]

theorem isAbove_append_name {name : String} : isAbove (place ++ [.name name]) = false := by
  simp [isAbove]

theorem mem_up {name : String} (h : .name name ∈ place.up) : .name name ∈ place := by
  unfold up at h
  split at h
  · exact h
  · exact (List.dropLast_sublist _).subset h
  · simpa using h

theorem WellNamed.step (h : place.WellNamed) (hpiece : piece ∈ p.pieces) :
    (place.step piece).WellNamed := by
  unfold Place.step
  split
  · exact h
  · rename_i hcurrent
    split
    · exact fun name hname => h name (mem_up hname)
    · rename_i hparent
      intro name hname
      rcases List.mem_append.mp hname with hname | hname
      · exact h name hname
      · obtain rfl : name = piece := by simpa using hname
        exact Path.isName_of_mem_pieces hpiece hcurrent hparent

end Place

namespace Tree

variable {t t' : Tree} {p : Path} {name : String} {names : List String}

/-! ### What a directory lists

A tree may list the entries of a directory in any order.  `MayList` says which lists can
come out, and whatever is shown of all of these does not depend on the order.
-/

/-- A path leads to a directory. -/
def Readable (t : Tree) (p : Path) : Prop :=
  ∃ place, t.place p = .ok place ∧ t.entry? place = some .directory

/-- A path leads to a directory in which something stands under a name. -/
def HasEntry (t : Tree) (p : Path) (name : String) : Prop :=
  ∃ place, t.place p = .ok place ∧ t.entry? place = some .directory ∧
    (t.entry? (place ++ [.name name])).isSome

/-- A directory may list these names: those of its entries, in whatever order. -/
def MayList (t : Tree) (p : Path) (names : List String) : Prop :=
  ∃ inOrder, t.list p = .ok inOrder ∧ names.Perm inOrder

/-- A place is listed in the directory that holds it, under the last name of the place. -/
private theorem listed_iff {place k : Place} :
    (match k.getLast? with
      | some (.name s) => if k.dropLast = place then some s else none
      | _ => none) = some name ↔ k = place ++ [.name name] := by
  constructor
  · intro h
    split at h
    · rename_i s hlast
      split at h
      · rename_i hplace
        rw [← Option.some.inj h, ← hplace]
        exact (List.dropLast_append_getLast? _ hlast).symm
      · cases h
    · cases h
  · rintro rfl
    simp

theorem isSome_entry?_append {place : Place} :
    (t.entry? (place ++ [.name name])).isSome ↔ place ++ [.name name] ∈ t.entries.keys := by
  unfold entry?
  rw [Place.isAbove_append_name, if_neg Bool.false_ne_true, SortedMap.mem_keys_iff,
    Option.isSome_iff_exists]

/-- What a list of names is made of: the places right below one directory. -/
theorem place_of_list (h : t.list p = .ok names) :
    ∃ place, t.place p = .ok place ∧ t.entry? place = some .directory ∧
      ∀ name, name ∈ names ↔ place ++ [.name name] ∈ t.entries.keys := by
  obtain ⟨place, hplace, h⟩ := bind_eq_ok.mp h
  obtain ⟨⟨⟩, henter, h⟩ := bind_eq_ok.mp h
  obtain rfl := Except.ok.inj h
  refine ⟨place, hplace, enter_eq_ok.mp henter, fun name => ?_⟩
  constructor
  · intro hname
    obtain ⟨k, hk, hlisted⟩ := List.mem_filterMap.mp hname
    rwa [← listed_iff.mp hlisted]
  · exact fun hk => List.mem_filterMap.mpr ⟨_, hk, listed_iff.mpr rfl⟩

/-- **A directory lists the names of its entries and no others.** -/
theorem mem_list (h : t.list p = .ok names) : name ∈ names ↔ t.HasEntry p name := by
  obtain ⟨place, hplace, hdirectory, hnames⟩ := place_of_list h
  rw [hnames, ← isSome_entry?_append]
  constructor
  · exact fun hname => ⟨place, hplace, hdirectory, hname⟩
  · rintro ⟨place', hplace', -, hname⟩
    rwa [Except.ok.inj (hplace.symm.trans hplace')]

/-- **A directory can be listed exactly if the path leads to it.** -/
theorem exists_list_eq_ok : (∃ names, t.list p = .ok names) ↔ t.Readable p := by
  constructor
  · rintro ⟨names, h⟩
    obtain ⟨place, hplace, hdirectory, -⟩ := place_of_list h
    exact ⟨place, hplace, hdirectory⟩
  · rintro ⟨place, hplace, hdirectory⟩
    exact ⟨_, bind_eq_ok.mpr ⟨place, hplace, bind_eq_ok.mpr ⟨(), enter_eq_ok.mpr hdirectory, rfl⟩⟩⟩

/-! ### Names in a tree

Names come into a tree with the places that something is put at, and a place is reached
by following the pieces of a path.  So the names are pieces, at every step of the walk
and in every entry made on the way.
-/

/-- Every name in a tree is one that an entry can have. -/
def WellNamed (t : Tree) : Prop := ∀ place ∈ t.entries.keys, place.WellNamed

theorem isName_of_mem_list (ht : t.WellNamed) (h : t.list p = .ok names) (hname : name ∈ names) :
    Path.IsName name := by
  obtain ⟨place, -, -, hnames⟩ := place_of_list h
  exact ht _ ((hnames name).mp hname) name (by simp)

theorem wellNamed_empty : empty.WellNamed := fun _ h => nomatch h

theorem WellNamed.insert {place : Place} {e : Entry} (ht : t.WellNamed) (hplace : place.WellNamed) :
    (t.insert place e).WellNamed := by
  intro other hother
  rcases SortedMap.mem_keys_insert.mp hother with rfl | hother
  · exact hplace
  · exact ht other hother

/-- The way along pieces of a path leads to places with such names only. -/
theorem wellNamed_of_follow {pieces : List String} {start place : Place}
    (hpieces : ∀ piece ∈ pieces, piece ∈ p.pieces) (hstart : start.WellNamed)
    (h : t.follow start pieces = .ok place) : place.WellNamed := by
  induction pieces generalizing start with
  | nil => exact Except.ok.inj h ▸ hstart
  | cons piece rest ih =>
      obtain ⟨hpiece, hrest⟩ := List.forall_mem_cons.mp hpieces
      obtain ⟨⟨⟩, -, h⟩ := bind_eq_ok.mp h
      split at h
      · cases h
      · exact ih hrest (hstart.step hpiece) h

theorem WellNamed.makeWay {pieces : List String} (ht : t.WellNamed)
    (hpieces : ∀ piece ∈ pieces, piece ∈ p.pieces) :
    (t.makeWay pieces).1.WellNamed ∧ (t.makeWay pieces).2.WellNamed := by
  unfold Tree.makeWay
  refine List.foldlRecOn
    (motive := fun state : Tree × Place => state.1.WellNamed ∧ state.2.WellNamed) pieces _
    ⟨ht, Place.wellNamed_nil⟩ fun (made, place) ⟨hmade, hplace⟩ piece hpiece => ?_
  have hnext := hplace.step (hpieces piece hpiece)
  refine ⟨?_, hnext⟩
  show WellNamed (if _ then _ else _)
  split
  · exact hmade
  · exact hmade.insert hnext

/-- **Putting an entry where a path leads brings no other names into a tree.** -/
theorem WellNamed.put {e : Entry} (ht : t.WellNamed) : (t.put p e).WellNamed := by
  cases e with
  | directory => exact (ht.makeWay fun _ h => h).1
  | file content =>
      obtain ⟨hmade, habove⟩ := ht.makeWay (p := p) fun _ h => (List.dropLast_sublist _).subset h
      unfold Tree.put
      dsimp only
      split
      · exact hmade
      · rename_i piece hlast
        exact hmade.insert (habove.step (List.mem_of_getLast? hlast))

/-- **Writing a file brings no other names into a tree.** -/
theorem WellNamed.write {text : String} (ht : t.WellNamed) (h : t.write p text = .ok t') :
    t'.WellNamed := by
  obtain ⟨place, hplace, -, -, rfl⟩ := exists_insert_of_write h
  obtain ⟨start, hstart, hfollow⟩ := bind_eq_ok.mp hplace
  exact ht.insert (wellNamed_of_follow (fun _ h => h) (Place.wellNamed_of_start hstart) hfollow)

end Tree

end BytecodeIR
