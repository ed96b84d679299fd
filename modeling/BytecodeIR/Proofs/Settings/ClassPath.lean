/-
Checking what a class path is made of.

Libraries are put on a class path with a separator between them, and nothing in the path of
a library is escaped.  So the class path can be taken apart again exactly if the separator
is in none of the paths, and this is what the check looks for.

It looks at the libraries that were collected, while the settings and the directories may
name more of them, in other spellings.  That nothing escapes it is a property of paths:
which characters stand in a path besides slashes and dots is a matter of its components,
and so it does not depend on the spelling that was kept.
-/
import BytecodeIR.Proofs.Settings.Libraries

namespace BytecodeIR.Settings

variable {s : Settings} {files : Tree} {p q : Path} {jars bad : List Path} {texts : List String}

/-! ### The separator in a path -/

/-- The separator is in a path, which on a class path could not be told from two. -/
def Ambiguous (p : Path) : Prop := classPathSeparator ∈ p.text.toList

instance : DecidablePred Ambiguous := fun p =>
  inferInstanceAs (Decidable (classPathSeparator ∈ p.text.toList))

theorem containsSeparator_eq : containsSeparator p = decide (Ambiguous p) := by
  rw [Bool.eq_iff_iff, decide_eq_true_iff]
  exact List.contains_iff_mem

/-- Equal paths are ambiguous in every spelling or in none. -/
theorem ambiguous_congr (h : p.components = q.components) : Ambiguous p ↔ Ambiguous q :=
  Path.mem_text_congr (by decide) (by decide) h

/-! ### Taking a class path apart -/

/-- The texts between the separators of a class path. -/
def entriesOf (classPath : String) : List String :=
  (classPath.split classPathSeparator).toList.map (·.copy)

/-- **Texts can be read off with separators between them exactly if none of them has one, and there
is a text at all.** -/
theorem entriesOf_intercalate :
    entriesOf (classPathSeparator.toString.intercalate texts) = texts ↔
      texts ≠ [] ∧ ∀ t ∈ texts, classPathSeparator ∉ t.toList := by
  constructor
  · intro h
    have hentries : ∀ text t, t ∈ entriesOf text → classPathSeparator ∉ t.toList := by
      intro text t ht
      rw [entriesOf, String.toList_split_char] at ht
      obtain ⟨piece, hpiece, rfl⟩ := List.mem_map.mp ht
      rw [String.toList_ofList]
      exact notMem_of_mem_splitOn hpiece
    refine ⟨?_, fun t ht => hentries _ t (h ▸ ht)⟩
    rintro rfl
    simp [entriesOf, String.toList_split_char] at h
  · rintro ⟨hne, hseparator⟩
    exact (String.toList_split_intercalate hseparator).trans (if_neg hne)

/-- The class path is put together from the libraries. -/
theorem classPath_of_libraryJars (h : s.libraryJars files = .ok jars) :
    s.classPath files =
      .ok (classPathSeparator.toString.intercalate (jars.map Path.text)) := by
  unfold classPath
  rw [h]
  rfl

/-- **The class path can be taken apart into the libraries exactly if there are any and the
separator is in none of their paths.** -/
theorem exists_classPath_entriesOf (h : s.libraryJars files = .ok jars) :
    ∃ text, s.classPath files = .ok text ∧
      (entriesOf text = jars.map Path.text ↔ jars ≠ [] ∧ ¬ ∃ jar ∈ jars, Ambiguous jar) := by
  refine ⟨_, classPath_of_libraryJars h, ?_⟩
  rw [entriesOf_intercalate]
  simp [Ambiguous]

/-! ### Checking -/

/-- The check of a class path collects the libraries and looks for separators in their paths. -/
theorem check_jar (h : s.archive = .jar) : s.check files = (do
    let jars ← s.libraryJars files
    if ∃ jar ∈ jars, Ambiguous jar then
      .error (.separatorInJars (jars.filter fun jar => Ambiguous jar))
    else .ok ()) := by
  have hfilter : ∀ jars : List Path,
      jars.filter containsSeparator = jars.filter fun jar => Ambiguous jar :=
    fun jars => List.filter_congr fun _ _ => containsSeparator_eq
  have hempty : ∀ jars : List Path, (jars.filter fun jar => Ambiguous jar).isEmpty =
      decide ¬ ∃ jar ∈ jars, Ambiguous jar := by
    intro jars
    rw [Bool.eq_iff_iff, List.isEmpty_iff, List.filter_eq_nil_iff, decide_eq_true_iff]
    simp
  unfold check
  simp only [h, hfilter, hempty, decide_eq_true_eq, ite_not]

theorem check_eq_ok (h : s.archive = .jar) : s.check files = .ok () ↔
    ∃ jars, s.libraryJars files = .ok jars ∧ ¬ ∃ jar ∈ jars, Ambiguous jar := by
  rw [check_jar h, bind_eq_ok]
  refine exists_congr fun jars => and_congr_right fun _ => ?_
  split
  · rename_i hsome
    simp [hsome]
  · rename_i hnone
    simp [hnone]

/-- What is reported are the libraries with a separator in their paths, in their order. -/
theorem check_eq_separatorInJars (h : s.archive = .jar) :
    s.check files = .error (.separatorInJars bad) ↔ ∃ jars, s.libraryJars files = .ok jars ∧
      (∃ jar ∈ jars, Ambiguous jar) ∧ (jars.filter fun jar => Ambiguous jar) = bad := by
  have hcollect : s.libraryJars files ≠ .error (.separatorInJars bad) := by
    intro hfault
    obtain ⟨_, _, _, _, _, _, _, hblame⟩ := libraryJars_eq_error.mp hfault
    cases hblame
  rw [check_jar h, bind_eq_error, or_iff_right hcollect]
  refine exists_congr fun jars => and_congr_right fun _ => ?_
  split
  · rename_i hsome
    simp [hsome]
  · rename_i hnone
    simp [hnone]

/-! ### Libraries that were not collected in their own spelling -/

/-- A property of the components holds of a library that was collected if it holds of one that is
listed or found. -/
theorem exists_mem_libraryJars {P : Path → Prop}
    (hP : ∀ {p q : Path}, p.components = q.components → (P p ↔ P q))
    (h : s.libraryJars files = .ok jars) :
    (∃ jar ∈ jars, P jar) ↔ ∃ jar, s.Library files jar ∧ P jar := by
  obtain ⟨listings, hlistings, rfl⟩ := libraryJars_eq_ok.mp h
  simp only [library_iff hlistings]
  constructor
  · rintro ⟨q, hq, hPq⟩
    obtain ⟨jar, hjar, hsame⟩ := exists_mem_values_jarMap.mp ⟨q, hq, rfl⟩
    exact ⟨jar, hjar, (hP hsame).mpr hPq⟩
  · rintro ⟨jar, hjar, hPjar⟩
    obtain ⟨q, hq, hsame⟩ := exists_mem_values_jarMap.mpr ⟨jar, hjar, rfl⟩
    exact ⟨q, hq, (hP hsame).mpr hPjar⟩

theorem check_eq_ok_iff_library (h : s.archive = .jar) : s.check files = .ok () ↔
    (∃ jars, s.libraryJars files = .ok jars) ∧ ∀ jar, s.Library files jar → ¬ Ambiguous jar := by
  rw [check_eq_ok h, ← exists_and_right]
  refine exists_congr fun jars => and_congr_right fun hjars => ?_
  rw [exists_mem_libraryJars ambiguous_congr hjars]
  simp

theorem exists_separatorInJars_iff_library (h : s.archive = .jar) :
    (∃ bad, s.check files = .error (.separatorInJars bad)) ↔
      (∃ jars, s.libraryJars files = .ok jars) ∧ ∃ jar, s.Library files jar ∧ Ambiguous jar := by
  constructor
  · rintro ⟨bad, hbad⟩
    obtain ⟨jars, hjars, hsome, -⟩ := (check_eq_separatorInJars h).mp hbad
    exact ⟨⟨jars, hjars⟩, (exists_mem_libraryJars ambiguous_congr hjars).mp hsome⟩
  · rintro ⟨⟨jars, hjars⟩, hlibrary⟩
    have hsome := (exists_mem_libraryJars ambiguous_congr hjars).mpr hlibrary
    exact ⟨_, (check_eq_separatorInJars h).mpr ⟨jars, hjars, hsome, rfl⟩⟩

/-- Up to spelling, all that is listed or found with a separator in its path is reported. -/
theorem exists_mem_reported (h : s.archive = .jar)
    (hbad : s.check files = .error (.separatorInJars bad)) :
    (∃ q ∈ bad, q.components = p.components) ↔
      ∃ jar, s.Library files jar ∧ Ambiguous jar ∧ jar.components = p.components := by
  obtain ⟨jars, hjars, -, rfl⟩ := (check_eq_separatorInJars h).mp hbad
  have hcongr : ∀ {q q' : Path}, q.components = q'.components →
      ((Ambiguous q ∧ q.components = p.components) ↔
        (Ambiguous q' ∧ q'.components = p.components)) := by
    intro q q' hsame
    rw [ambiguous_congr hsame, hsame]
  rw [← exists_mem_libraryJars hcongr hjars]
  simp [and_assoc]

/-! ### What the check is worth -/

/-- All that can be said of the check of a class path. -/
structure ChecksClassPath (s : Settings) (files : Tree) : Prop where
  /-- The check passes if the libraries can be collected and none of them has a separator. -/
  accepts : s.check files = .ok () ↔
    (∃ jars, s.libraryJars files = .ok jars) ∧ ∀ jar, s.Library files jar → ¬ Ambiguous jar
  refuses : (∃ bad, s.check files = .error (.separatorInJars bad)) ↔
    (∃ jars, s.libraryJars files = .ok jars) ∧ ∃ jar, s.Library files jar ∧ Ambiguous jar
  /-- Libraries that cannot be collected are no fault of the separator. -/
  fails : ∀ fault, s.libraryJars files = .error fault → s.check files = .error fault
  /-- What is reported stands in the order of the libraries. -/
  reports : ∀ bad, s.check files = .error (.separatorInJars bad) → ∃ jars,
    s.libraryJars files = .ok jars ∧ (jars.filter fun jar => Ambiguous jar) = bad
  /-- Up to spelling, all that is listed or found with a separator in its path is reported. -/
  reported : ∀ bad, s.check files = .error (.separatorInJars bad) → ∀ p : Path,
    (∃ q ∈ bad, q.components = p.components) ↔
      ∃ jar, s.Library files jar ∧ Ambiguous jar ∧ jar.components = p.components
  /-- The class path can be taken apart exactly if the check passes. -/
  parts : ∀ jars, s.libraryJars files = .ok jars → jars ≠ [] → ∃ text,
    s.classPath files = .ok text ∧
      (entriesOf text = jars.map Path.text ↔ s.check files = .ok ())

/-- **Settings pass the check exactly if their class path can be taken apart again, and otherwise
the libraries that are in the way are reported.** -/
theorem checksClassPath (h : s.archive = .jar) : s.ChecksClassPath files := by
  constructor
  case accepts => exact check_eq_ok_iff_library h
  case refuses => exact exists_separatorInJars_iff_library h
  case fails =>
    intro fault hfault
    rw [check_jar h, hfault]
    rfl
  case reports =>
    intro bad hbad
    obtain ⟨jars, hjars, -, hfilter⟩ := (check_eq_separatorInJars h).mp hbad
    exact ⟨jars, hjars, hfilter⟩
  case reported => exact fun bad hbad p => exists_mem_reported h hbad
  case parts =>
    intro jars hjars hne
    obtain ⟨text, htext, hparts⟩ := exists_classPath_entriesOf hjars
    refine ⟨text, htext, ?_⟩
    rw [hparts, check_eq_ok h]
    simp [hjars, hne]

/-- Two directories with a library each, one of them with a separator in its name. -/
def shelves : Tree :=
  (Tree.empty.put ⟨"li:b/a.jar"⟩ (.file [])).put ⟨"lib/c.jar"⟩ (.file [])

/-- Settings with a separator in a directory, and in one of the libraries, which is listed in two
spellings. -/
def divided : Settings :=
  { Settings.default with
    jars := [⟨"x:y.jar//"⟩, ⟨"x:y.jar"⟩, ⟨"d.jar"⟩], jarRoots := [⟨"lib"⟩, ⟨"li:b"⟩] }

/-- Settings without a separator, that list the empty path too. -/
def undivided : Settings :=
  { Settings.default with jars := [⟨"lib//d.jar"⟩, ⟨""⟩], jarRoots := [⟨"./lib/"⟩] }

theorem checksClassPath_shelves :
    divided.archive = .jar ∧
      divided.check shelves = .error (.separatorInJars [⟨"li:b/a.jar"⟩, ⟨"x:y.jar"⟩]) ∧
    undivided.archive = .jar ∧ undivided.check shelves = .ok () ∧
      undivided.libraryJars shelves = .ok [⟨""⟩, ⟨"./lib/c.jar"⟩, ⟨"lib//d.jar"⟩] ∧
      undivided.classPath shelves = .ok ":./lib/c.jar:lib//d.jar" ∧
      entriesOf ":./lib/c.jar:lib//d.jar" = ["", "./lib/c.jar", "lib//d.jar"] := by
  have hdivided : divided.ChecksClassPath shelves := checksClassPath rfl
  have hundivided : undivided.ChecksClassPath shelves := checksClassPath rfl
  refine ⟨rfl, ?_, rfl, ?_⟩
  · have hjars : divided.libraryJars shelves =
        .ok [⟨"d.jar"⟩, ⟨"li:b/a.jar"⟩, ⟨"lib/c.jar"⟩, ⟨"x:y.jar"⟩] := by decide +kernel
    have hlisted : divided.Library shelves ⟨"x:y.jar"⟩ := .listed (by decide)
    obtain ⟨bad, hbad⟩ := hdivided.refuses.mpr ⟨⟨_, hjars⟩, _, hlisted, by decide⟩
    obtain ⟨jars, hjars', rfl⟩ := hdivided.reports bad hbad
    obtain rfl := Except.ok.inj (hjars.symm.trans hjars')
    exact hbad
  · have hjars : undivided.libraryJars shelves =
        .ok [⟨""⟩, ⟨"./lib/c.jar"⟩, ⟨"lib//d.jar"⟩] := by decide +kernel
    have hcheck : undivided.check shelves = .ok () := by decide +kernel
    obtain ⟨text, htext, hparts⟩ := hundivided.parts _ hjars (by simp)
    have htext' : undivided.classPath shelves = .ok ":./lib/c.jar:lib//d.jar" := by decide +kernel
    obtain rfl := Except.ok.inj (htext.symm.trans htext')
    exact ⟨hcheck, hjars, htext, hparts.mpr hcheck⟩

end BytecodeIR.Settings
