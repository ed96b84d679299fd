/-
The libraries on a class path.

They are collected in a map under the components of their paths, so the order of the
result and that no library is in it twice are properties of maps.  What is left to say is
which path is found under given components: the last of the listed ones that has them,
and where none is listed, the first that is found in a directory.

The order in which a directory lists its entries does not matter because two entries of
one directory never have the same components.  Two directories may well share libraries,
as when one is named twice in different spellings; then the first directory counts.
-/
import BytecodeIR.Settings.Basic
import BytecodeIR.Proofs.Files.Names
import Mathlib.Data.List.Find

namespace BytecodeIR.Settings

variable {s : Settings} {files : Tree} {root p q : Path} {jars listed found : List Path}
  {names : List String} {listings : List (List String)} {k : List Component}

/-! ### What is collected -/

/-- The libraries among the entries of a directory, in the order in which these are listed. -/
def librariesOf (root : Path) (names : List String) : List Path :=
  (names.filter fun name => Path.extension? name == some "jar").map root.entry

/-- The libraries in the directories of the settings if these list their entries as given. -/
def librariesFound (s : Settings) (listings : List (List String)) : List Path :=
  (List.zipWith librariesOf s.jarRoots listings).flatten

/-- The libraries on the class path if the directories list their entries as given. -/
def librariesListed (s : Settings) (listings : List (List String)) : List Path :=
  (jarMap s.jars (s.librariesFound listings)).values

/-- A library is listed in the settings, or it stands in a directory that they name, under a name
with the extension of archives. -/
inductive Library (s : Settings) (files : Tree) : Path → Prop
  | listed {jar : Path} (hjar : jar ∈ s.jars) : Library s files jar
  | found {root : Path} {stem : String} (hroot : root ∈ s.jarRoots) (hstem : stem ≠ "")
    (hentry : files.HasEntry root (stem ++ ".jar")) :
    Library s files (root.entry (stem ++ ".jar"))

theorem jarsIn_eq_ok : jarsIn files root = .ok jars ↔
    ∃ names, files.list root = .ok names ∧ librariesOf root names = jars := by
  unfold jarsIn librariesOf
  cases files.list root with
  | error e => simp
  | ok names => simp

theorem jarsIn_eq_error {fault : SettingsFault} : jarsIn files root = .error fault ↔
    ∃ e, files.list root = .error e ∧ .unreadable root e = fault := by
  unfold jarsIn
  cases files.list root with
  | error e => simp
  | ok names => simp

theorem exists_jarsIn_eq_ok : (∃ jars, jarsIn files root = .ok jars) ↔ files.Readable root := by
  rw [← Tree.exists_list_eq_ok]
  constructor
  · rintro ⟨jars, h⟩
    obtain ⟨names, hnames, -⟩ := jarsIn_eq_ok.mp h
    exact ⟨names, hnames⟩
  · rintro ⟨names, hnames⟩
    exact ⟨_, jarsIn_eq_ok.mpr ⟨names, hnames, rfl⟩⟩

/-- Directories that are read one after another give what each of them lists. -/
private theorem forall₂_jarsIn {roots : List Path} {jarLists : List (List Path)} :
    List.Forall₂ (fun root jars => jarsIn files root = .ok jars) roots jarLists ↔
      ∃ listings, List.Forall₂ (fun root names => files.list root = .ok names) roots listings ∧
        List.zipWith librariesOf roots listings = jarLists := by
  constructor
  · intro h
    induction h with
    | nil => exact ⟨[], .nil, rfl⟩
    | cons hjars _ ih =>
        obtain ⟨names, hnames, rfl⟩ := jarsIn_eq_ok.mp hjars
        obtain ⟨listings, hlistings, rfl⟩ := ih
        exact ⟨names :: listings, .cons hnames hlistings, rfl⟩
  · rintro ⟨listings, hlistings, rfl⟩
    induction hlistings with
    | nil => exact .nil
    | cons hnames _ ih => exact .cons (jarsIn_eq_ok.mpr ⟨_, hnames, rfl⟩) ih

/-- The libraries are collected from what the directories list. -/
theorem libraryJars_eq_ok : s.libraryJars files = .ok jars ↔
    ∃ listings, List.Forall₂ (fun root names => files.list root = .ok names) s.jarRoots listings ∧
      s.librariesListed listings = jars := by
  unfold libraryJars
  simp only [bind_eq_ok, mapM_eq_ok, forall₂_jarsIn]
  constructor
  · rintro ⟨jarLists, ⟨listings, hlistings, rfl⟩, h⟩
    exact ⟨listings, hlistings, Except.ok.inj h⟩
  · rintro ⟨listings, hlistings, rfl⟩
    exact ⟨_, ⟨listings, hlistings, rfl⟩, rfl⟩

theorem exists_libraryJars_eq_ok :
    (∃ jars, s.libraryJars files = .ok jars) ↔ ∀ root ∈ s.jarRoots, files.Readable root := by
  simp only [libraryJars_eq_ok, ← Tree.exists_list_eq_ok, ← exists_forall₂]
  constructor
  · rintro ⟨jars, listings, hlistings, -⟩
    exact ⟨listings, hlistings⟩
  · rintro ⟨listings, hlistings⟩
    exact ⟨_, listings, hlistings, rfl⟩

/-- **The libraries cannot be collected if a directory cannot be read, and then the first such
directory is to blame.** -/
theorem libraryJars_eq_error {fault : SettingsFault} : s.libraryJars files = .error fault ↔
    ∃ before root after e, s.jarRoots = before ++ root :: after ∧
      (∀ r ∈ before, files.Readable r) ∧ files.list root = .error e ∧
        .unreadable root e = fault := by
  unfold libraryJars
  simp only [bind_eq_error, mapM_eq_error, jarsIn_eq_error, exists_jarsIn_eq_ok, reduceCtorEq,
    and_false, exists_false, or_false]
  constructor
  · rintro ⟨before, root, after, hsplit, hbefore, e, he, hfault⟩
    exact ⟨before, root, after, e, hsplit, hbefore, he, hfault⟩
  · rintro ⟨before, root, after, e, hsplit, hbefore, he, hfault⟩
    exact ⟨before, root, after, hsplit, hbefore, e, he, hfault⟩

/-! ### Which spelling counts

The map is built in two rounds.  The listed libraries are written one over the other, so
the last spelling stays; those found in directories are put only where nothing stands,
so the first does.
-/

private theorem findEntry_jars : SortedMap.findEntry k (jars.map fun jar => (jar.components, jar)) =
    jars.find? fun jar => jar.components = k := by
  have hkey : ∀ jar ∈ jars, (compare k jar.components == .eq) = decide (jar.components = k) := by
    intro jar _
    rw [Bool.eq_iff_iff, beq_iff_eq, decide_eq_true_iff, Std.LawfulEqCmp.compare_eq_iff_eq]
    exact eq_comm
  unfold SortedMap.findEntry
  rw [List.find?_map, Option.map_map, ← List.find?_congr hkey]
  exact Option.map_id'

/-- **Of equal paths that are listed the last is in the map, and of those that are only found the
first.** -/
theorem get?_jarMap : (jarMap listed found).get? k =
    (listed.reverse.find? fun jar => jar.components = k).or
      (found.find? fun jar => jar.components = k) := by
  have hfound : jarMap listed found =
      (found.map fun jar => (jar.components, jar)).foldl (fun m e => m.insertNew e.1 e.2)
        (.ofList (listed.map fun jar => (jar.components, jar))) := by
    rw [List.foldl_map]
    rfl
  rw [hfound, SortedMap.get?_foldl_insertNew, SortedMap.get?_ofList, ← List.map_reverse,
    findEntry_jars, findEntry_jars]

theorem components_of_get? (h : (jarMap listed found).get? k = some q) : q.components = k := by
  rw [get?_jarMap, Option.or_eq_some_iff] at h
  rcases h with h | ⟨-, h⟩
  · simpa using List.find?_some h
  · simpa using List.find?_some h

theorem mem_values_jarMap : q ∈ (jarMap listed found).values ↔
    (jarMap listed found).get? q.components = some q := by
  rw [SortedMap.get?_eq_some]
  constructor
  · intro h
    obtain ⟨⟨k, q⟩, hmem, rfl⟩ := List.mem_map.mp h
    rw [components_of_get? (SortedMap.get?_eq_some.mpr hmem)]
    exact hmem
  · exact fun h => List.mem_map.mpr ⟨_, h, rfl⟩

/-- Whatever is found under given components was put there in some spelling. -/
theorem exists_mem_values_jarMap : (∃ q ∈ (jarMap listed found).values, q.components = k) ↔
    ∃ jar, (jar ∈ listed ∨ jar ∈ found) ∧ jar.components = k := by
  constructor
  · rintro ⟨q, hq, rfl⟩
    refine ⟨q, ?_, rfl⟩
    rw [mem_values_jarMap, get?_jarMap, Option.or_eq_some_iff] at hq
    rcases hq with hq | ⟨-, hq⟩
    · exact .inl (List.mem_reverse.mp (List.mem_of_find?_eq_some hq))
    · exact .inr (List.mem_of_find?_eq_some hq)
  · rintro ⟨jar, hjar, rfl⟩
    have hsome : ((jarMap listed found).get? jar.components).isSome := by
      rw [get?_jarMap, Option.isSome_or, Bool.or_eq_true]
      simp only [List.find?_isSome, List.mem_reverse, decide_eq_true_eq]
      exact hjar.imp (fun h => ⟨jar, h, rfl⟩) fun h => ⟨jar, h, rfl⟩
    obtain ⟨q, hq⟩ := Option.isSome_iff_exists.mp hsome
    have hkey := components_of_get? hq
    refine ⟨q, mem_values_jarMap.mpr ?_, hkey⟩
    rw [hkey, hq]

/-- A path that is only found never stands in for an equal one that is listed. -/
theorem mem_listed_of_mem_values (hq : q ∈ (jarMap listed found).values) (hp : p ∈ listed)
    (hsame : p.components = q.components) : q ∈ listed := by
  rw [mem_values_jarMap, get?_jarMap, Option.or_eq_some_iff] at hq
  rcases hq with hq | ⟨hnone, -⟩
  · exact List.mem_reverse.mp (List.mem_of_find?_eq_some hq)
  · have hne := List.find?_eq_none.mp hnone p (List.mem_reverse.mpr hp)
    simp [hsame] at hne

/-- The libraries stand in the order of their components, and none is there twice. -/
theorem increasing_jarMap : (jarMap listed found).values.Pairwise
    fun p q => compare p.components q.components = .lt := by
  unfold SortedMap.values
  rw [List.pairwise_map]
  refine (jarMap listed found).increasing.imp_of_mem fun {a b} ha hb hlt => ?_
  rw [components_of_get? (SortedMap.get?_eq_some.mpr ha),
    components_of_get? (SortedMap.get?_eq_some.mpr hb)]
  exact hlt

/-! ### Libraries that are listed or found -/

private theorem extension?_eq_jar {name : String} : Path.extension? name = some "jar" ↔
    ∃ stem, stem ≠ "" ∧ name = stem ++ ".jar" := by
  have hdot : '.' ∉ "jar".toList := by decide
  simp only [Path.extension?_eq_some, hdot, not_false_eq_true, and_true, String.append_assoc]
  rfl

theorem mem_librariesOf : p ∈ librariesOf root names ↔
    ∃ stem, stem ≠ "" ∧ stem ++ ".jar" ∈ names ∧ p = root.entry (stem ++ ".jar") := by
  unfold librariesOf
  simp only [List.mem_map, List.mem_filter, beq_iff_eq, extension?_eq_jar]
  constructor
  · rintro ⟨name, ⟨hname, stem, hstem, rfl⟩, rfl⟩
    exact ⟨stem, hstem, hname, rfl⟩
  · rintro ⟨stem, hstem, hname, rfl⟩
    exact ⟨_, ⟨hname, stem, hstem, rfl⟩, rfl⟩

/-- What is found are entries of directories that the settings name. -/
theorem mem_librariesFound
    (h : List.Forall₂ (fun root names => files.list root = .ok names) s.jarRoots listings) :
    p ∈ s.librariesFound listings ↔ ∃ root ∈ s.jarRoots, ∃ stem, stem ≠ "" ∧
      files.HasEntry root (stem ++ ".jar") ∧ p = root.entry (stem ++ ".jar") := by
  unfold librariesFound
  generalize s.jarRoots = roots at h ⊢
  induction h with
  | nil => simp
  | cons hnames _ ih =>
      rw [List.zipWith_cons_cons, List.flatten_cons, List.mem_append, ih, mem_librariesOf]
      simp only [Tree.mem_list hnames, List.exists_mem_cons_iff]

theorem library_iff
    (h : List.Forall₂ (fun root names => files.list root = .ok names) s.jarRoots listings) :
    Library s files p ↔ p ∈ s.jars ∨ p ∈ s.librariesFound listings := by
  rw [mem_librariesFound h]
  constructor
  · intro hp
    cases hp with
    | listed hjar => exact .inl hjar
    | found hroot hstem hentry => exact .inr ⟨_, hroot, _, hstem, hentry, rfl⟩
  · rintro (hjar | ⟨root, hroot, stem, hstem, hentry, rfl⟩)
    · exact .listed hjar
    · exact .found hroot hstem hentry

/-! ### The order of the entries

Two listings of a directory differ in order only.  Within one directory the components
of a library determine its name, so there is nothing to choose between, and what is
found under given components is the same.
-/

/-- One directory has no two libraries with the same components. -/
theorem find?_librariesOf {names' : List String} (hperm : names'.Perm names)
    (hnames : ∀ name ∈ names, Path.IsName name) :
    ((librariesOf root names').find? fun jar => jar.components = k) =
      (librariesOf root names).find? fun jar => jar.components = k := by
  refine List.find?_eq_find?_of_perm ((hperm.filter _).map _) ?_
  rintro p ⟨hp, hpk⟩ q ⟨hq, hqk⟩
  obtain ⟨stem, -, hname, rfl⟩ := mem_librariesOf.mp hp
  obtain ⟨stem', -, hname', rfl⟩ := mem_librariesOf.mp hq
  have hcomponents := (of_decide_eq_true hpk).trans (of_decide_eq_true hqk).symm
  rw [Path.components_entry (hnames _ (hperm.mem_iff.mp hname)),
    Path.components_entry (hnames _ (hperm.mem_iff.mp hname'))] at hcomponents
  have hsame : stem ++ ".jar" = stem' ++ ".jar" := by simpa using hcomponents
  rw [hsame]

/-- What is found first under given components does not depend on the order of any directory. -/
theorem exists_inOrder {roots : List Path} (hfiles : files.WellNamed)
    (h : List.Forall₂ files.MayList roots listings) :
    ∃ inOrder, List.Forall₂ (fun root names => files.list root = .ok names) roots inOrder ∧
      ∀ k : List Component,
        ((List.zipWith librariesOf roots listings).flatten.find? fun jar => jar.components = k) =
          (List.zipWith librariesOf roots inOrder).flatten.find? fun jar => jar.components = k := by
  induction h with
  | nil => exact ⟨[], .nil, fun k => rfl⟩
  | cons hlists _ ih =>
      obtain ⟨names, hnames, hperm⟩ := hlists
      obtain ⟨inOrder, hinOrder, hrest⟩ := ih
      refine ⟨names :: inOrder, .cons hnames hinOrder, fun k => ?_⟩
      simp only [List.zipWith_cons_cons, List.flatten_cons, List.find?_append, hrest,
        find?_librariesOf hperm fun name => Tree.isName_of_mem_list hfiles hnames]

/-- **The order in which directories list their entries does not matter.** -/
theorem libraryJars_of_mayList (hfiles : files.WellNamed)
    (h : List.Forall₂ files.MayList s.jarRoots listings) :
    s.libraryJars files = .ok (s.librariesListed listings) := by
  obtain ⟨inOrder, hinOrder, hfind⟩ := exists_inOrder hfiles h
  refine libraryJars_eq_ok.mpr ⟨inOrder, hinOrder, congrArg SortedMap.values ?_⟩
  apply SortedMap.ext_get?
  intro k
  rw [get?_jarMap, get?_jarMap]
  exact congrArg _ (hfind k).symm

/-! ### The class path -/

/-- All that can be said of the libraries that settings collect. -/
structure CollectsLibraries (s : Settings) (files : Tree) : Prop where
  succeeds : (∃ jars, s.libraryJars files = .ok jars) ↔ ∀ root ∈ s.jarRoots, files.Readable root
  /-- The libraries stand in the order of their components, and none is there twice. -/
  increasing : ∀ jars, s.libraryJars files = .ok jars →
    jars.Pairwise fun p q => compare p.components q.components = .lt
  /-- Up to spelling, the libraries are those that are listed or found. -/
  mem : ∀ jars, s.libraryJars files = .ok jars → ∀ p : Path,
    (∃ q ∈ jars, q.components = p.components) ↔
      ∃ jar, s.Library files jar ∧ jar.components = p.components
  /-- A library that is listed is spelled as it is listed. -/
  spelling : ∀ jars, s.libraryJars files = .ok jars → ∀ jar ∈ s.jars, ∀ q ∈ jars,
    q.components = jar.components → q ∈ s.jars
  /-- Directories may list their entries in any order. -/
  order : files.WellNamed → ∀ listings, List.Forall₂ files.MayList s.jarRoots listings →
    s.libraryJars files = .ok (s.librariesListed listings)
  /-- The first directory that cannot be read is to blame. -/
  refuses : ∀ fault, s.libraryJars files = .error fault ↔
    ∃ before root after e, s.jarRoots = before ++ root :: after ∧
      (∀ r ∈ before, files.Readable r) ∧ files.list root = .error e ∧
        .unreadable root e = fault

/-- **The class path has the libraries that are listed or found, once each and in order.** -/
theorem collectsLibraries (s : Settings) (files : Tree) : s.CollectsLibraries files := by
  constructor
  case succeeds => exact exists_libraryJars_eq_ok
  case increasing =>
    intro jars h
    obtain ⟨listings, -, rfl⟩ := libraryJars_eq_ok.mp h
    exact increasing_jarMap
  case mem =>
    intro jars h p
    obtain ⟨listings, hlistings, rfl⟩ := libraryJars_eq_ok.mp h
    simp only [library_iff hlistings]
    exact exists_mem_values_jarMap
  case spelling =>
    intro jars h jar hjar q hq hsame
    obtain ⟨listings, hlistings, rfl⟩ := libraryJars_eq_ok.mp h
    exact mem_listed_of_mem_values hq hjar hsame.symm
  case order => exact fun hfiles listings => libraryJars_of_mayList hfiles
  case refuses => exact fun fault => libraryJars_eq_error

/-- Two libraries in a directory, and a hidden file that looks like a third. -/
def shelf : Tree :=
  ((Tree.empty.put ⟨"lib/b.jar"⟩ (.file [])).put ⟨"lib/.jar"⟩ (.file [])).put ⟨"lib/a.jar"⟩
    (.file [])

/-- Settings that name the directory twice, and one of the libraries with a slash too many. -/
def overlapping : Settings :=
  { Settings.default with jars := [⟨"lib//b.jar"⟩], jarRoots := [⟨"lib"⟩, ⟨"lib/"⟩] }

theorem collectsLibraries_overlapping :
    let listings := [["b.jar", ".jar", "a.jar"], ["a.jar", "b.jar", ".jar"]]
    shelf.WellNamed ∧ List.Forall₂ shelf.MayList overlapping.jarRoots listings ∧
      overlapping.libraryJars shelf = .ok [⟨"lib/a.jar"⟩, ⟨"lib//b.jar"⟩] := by
  have hfiles : shelf.WellNamed := Tree.wellNamed_empty.put.put.put
  have hlist : ∀ root ∈ overlapping.jarRoots, shelf.list root = .ok [".jar", "a.jar", "b.jar"] := by
    decide +kernel
  have hlists : List.Forall₂ shelf.MayList overlapping.jarRoots
      [["b.jar", ".jar", "a.jar"], ["a.jar", "b.jar", ".jar"]] :=
    .cons ⟨_, hlist _ (by decide), by decide⟩ (.cons ⟨_, hlist _ (by decide), by decide⟩ .nil)
  refine ⟨hfiles, hlists, ?_⟩
  rw [(collectsLibraries overlapping shelf).order hfiles _ hlists]
  decide +kernel

end BytecodeIR.Settings
