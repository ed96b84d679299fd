/-
What a program is converted to.

Only classes of the application count.  Either all of them are converted, or the
conversion fails as it does for the first one that it fails for.  The map that comes
out has their names as its keys, and where several classes have one name it holds what
the last of them became.  This describes the map completely, for two maps in which the
same is found under every key are equal.

So the order of the classes matters only where names repeat, and in which failure is
met first.
-/
import BytecodeIR.Lifting
import BytecodeIR.Proofs.SortedMap
import BytecodeIR.Proofs.Success

namespace BytecodeIR

open Conversion (Failure)

namespace Dump

/-! ### One class -/

/-- A public class of the application with nothing in it. -/
def Class.ofName (name : String) : Class where
  name := name
  superClass := some rootClass
  interfaces := []
  modifiers := 0x1
  application := true
  library := false
  javaLibrary := false
  phantom := false
  fields := []
  methods := []

/-- The entry of a class among the converted classes. -/
def Class.entry (c : Class) (dialect : Dialect) : Except Failure (String × Code.Class) := do
  let out ← c.convert dialect
  .ok (c.name, out)

section Entry

variable {c : Class} {dialect : Dialect}

theorem entry_eq_ok {e : String × Code.Class} :
    c.entry dialect = .ok e ↔ c.convert dialect = .ok e.2 ∧ e.1 = c.name := by
  obtain ⟨name, out⟩ := e
  unfold Class.entry
  rw [bind_eq_ok]
  constructor
  · intro h
    obtain ⟨out', hconvert, hpair⟩ := h
    obtain ⟨rfl, rfl⟩ := Prod.mk.inj (Except.ok.inj hpair)
    exact ⟨hconvert, rfl⟩
  · intro h
    obtain ⟨hconvert, rfl⟩ := h
    exact ⟨out, hconvert, rfl⟩

theorem exists_entry_eq_ok :
    (∃ e, c.entry dialect = .ok e) ↔ ∃ out, c.convert dialect = .ok out := by
  simp [entry_eq_ok]

theorem entry_eq_error {f : Failure} :
    c.entry dialect = .error f ↔ c.convert dialect = .error f := by
  unfold Class.entry
  rw [bind_eq_error]
  simp

end Entry

namespace Program

/-! ### Classes of the application

Several classes may have one name, and the one that counts is the last; it is found by
looking from behind.  That no two have one name is asked for by `DistinctNames` where it
is needed.
-/

/-- The classes of the application, in the order of the dump. -/
def ofApplication (p : Program) : List Class := p.classes.filter (·.application)

/-- The last class of the application with a name. -/
def last? (p : Program) (name : String) : Option Class :=
  p.ofApplication.reverse.find? fun c => c.name == name

/-- No two classes have one name. -/
def DistinctNames (p : Program) : Prop := (p.classes.map (·.name)).Nodup

instance (p : Program) : Decidable p.DistinctNames :=
  inferInstanceAs (Decidable (List.Nodup _))

section Names

variable {p q : Program} {name : String} {c : Class}

theorem mem_of_last? (h : p.last? name = some c) : c ∈ p.ofApplication ∧ c.name = name :=
  ⟨List.mem_reverse.mp (List.mem_of_find?_eq_some h), by simpa using List.find?_some h⟩

theorem last?_eq_none : p.last? name = none ↔ ∀ c ∈ p.ofApplication, c.name ≠ name := by
  unfold last?
  rw [List.find?_eq_none]
  simp

theorem exists_last? (hc : c ∈ p.ofApplication) : ∃ last, p.last? c.name = some last := by
  cases h : p.last? c.name with
  | none => exact absurd rfl (last?_eq_none.mp h c hc)
  | some last => exact ⟨last, rfl⟩

theorem nodup_ofApplication (h : p.DistinctNames) : (p.ofApplication.map (·.name)).Nodup :=
  h.sublist (List.filter_sublist.map _)

/-- If names are distinct the last class with a name is the only one. -/
theorem DistinctNames.last?_eq_some (h : p.DistinctNames) :
    p.last? name = some c ↔ c ∈ p.ofApplication ∧ c.name = name := by
  have hreverse : (p.ofApplication.reverse.map (·.name)).Nodup := by
    rw [List.map_reverse, List.nodup_reverse]
    exact nodup_ofApplication h
  unfold last?
  rw [find?_key_eq_some hreverse, List.mem_reverse]

end Names

/-! ### What comes out

Converting all classes and then making a map of them is the same as putting each into
the map when it is converted, and the first is easier to describe.  `convert_eq_map` is
the step between the two; the rest looks only at the list of entries.
-/

/-- A program is converted to a map of classes. -/
structure ConvertsTo (p : Program) (dialect : Dialect) (classes : Code.ClassMap) : Prop where
  converts : ∀ c ∈ p.ofApplication, ∃ out, c.convert dialect = .ok out
  keys : ∀ name, name ∈ classes.keys ↔ ∃ c ∈ p.ofApplication, c.name = name
  /-- Of the classes with one name the last counts. -/
  last : ∀ name c, p.last? name = some c →
    ∃ out, c.convert dialect = .ok out ∧ classes.get? name = some out

/-- A class of the application fails to be converted, after others that do not. -/
def FirstFailure (p : Program) (dialect : Dialect) (f : Failure) : Prop :=
  ∃ before c after, p.ofApplication = before ++ c :: after ∧
    (∀ b ∈ before, ∃ out, b.convert dialect = .ok out) ∧ c.convert dialect = .error f

/-- The entries of the classes of the application, unless one of them fails to be converted. -/
def entries (p : Program) (dialect : Dialect) : Except Failure (List (String × Code.Class)) :=
  p.ofApplication.mapM fun c => c.entry dialect

section Convert

variable {p q : Program} {dialect : Dialect} {classes classes' : Code.ClassMap} {name : String}

/-- Nothing is found under a name exactly if no class of the application has it. -/
theorem ConvertsTo.get?_eq_none (h : p.ConvertsTo dialect classes) :
    classes.get? name = none ↔ p.last? name = none := by
  constructor
  · intro hnone
    cases hlast : p.last? name with
    | none => rfl
    | some c =>
        obtain ⟨out, -, hout⟩ := h.last name c hlast
        rw [hnone] at hout
        cases hout
  · intro hnone
    cases hout : classes.get? name with
    | none => rfl
    | some out =>
        obtain ⟨c, hc, hname⟩ := (h.keys name).mp (SortedMap.mem_keys_iff.mpr ⟨out, hout⟩)
        exact absurd hname (last?_eq_none.mp hnone c hc)

/-- What is found under a name is what the last class with that name is converted to. -/
theorem ConvertsTo.get?_eq_some (h : p.ConvertsTo dialect classes) {out : Code.Class} :
    classes.get? name = some out ↔ ∃ c, p.last? name = some c ∧ c.convert dialect = .ok out := by
  constructor
  · intro hout
    cases hlast : p.last? name with
    | none =>
        rw [h.get?_eq_none.mpr hlast] at hout
        cases hout
    | some c =>
        obtain ⟨out', hconvert, hout'⟩ := h.last name c hlast
        rw [hout] at hout'
        exact ⟨c, rfl, Option.some.inj hout' ▸ hconvert⟩
  · rintro ⟨c, hlast, hconvert⟩
    obtain ⟨out', hconvert', hout'⟩ := h.last name c hlast
    rw [hconvert] at hconvert'
    rw [hout', Except.ok.inj hconvert']

/-- **A program is converted to one map only.** -/
theorem ConvertsTo.unique (h : p.ConvertsTo dialect classes) (h' : p.ConvertsTo dialect classes') :
    classes = classes' := by
  refine SortedMap.ext_get? fun name => Option.ext fun out => ?_
  rw [h.get?_eq_some, h'.get?_eq_some]

/-- Among entries of classes one finds that of the class that is found among the classes. -/
theorem findEntry_of_entries {cs : List Class} {entries : List (String × Code.Class)}
    (h : List.Forall₂ (fun c e => c.entry dialect = .ok e) cs entries) (name : String) :
    Option.Rel (fun c out => c.convert dialect = .ok out) (cs.find? fun c => c.name == name)
      (SortedMap.findEntry name entries) := by
  induction h with
  | nil => exact .none
  | @cons c e cs entries hc _ ih =>
      obtain ⟨hconvert, hname⟩ := entry_eq_ok.mp hc
      rw [SortedMap.findEntry_cons, hname]
      by_cases heq : c.name = name
      · rw [List.find?_cons_of_pos (by simpa using heq), heq, if_pos Std.ReflOrd.compare_self]
        exact .some hconvert
      · rw [List.find?_cons_of_neg (by simpa using heq),
          if_neg fun h => heq (Std.LawfulEqOrd.eq_of_compare h).symm]
        exact ih

theorem convertsTo_of_entries {entries : List (String × Code.Class)}
    (h : p.entries dialect = .ok entries) :
    p.ConvertsTo dialect (.ofList entries) := by
  have hentries := mapM_eq_ok.mp h
  have hfind : ∀ name, Option.Rel (fun c out => c.convert dialect = .ok out) (p.last? name)
      (SortedMap.get? (.ofList entries) name) := by
    intro name
    rw [SortedMap.get?_ofList]
    exact findEntry_of_entries (List.rel_reverse hentries) name
  have hlast : ∀ name c, p.last? name = some c →
      ∃ out, c.convert dialect = .ok out ∧ SortedMap.get? (.ofList entries) name = some out := by
    intro name c hlast
    have hrel := hfind name
    rw [hlast] at hrel
    generalize SortedMap.get? (.ofList entries) name = found at hrel
    cases hrel with
    | some hconvert => exact ⟨_, hconvert, rfl⟩
  constructor
  case converts =>
    intro c hc
    obtain ⟨e, -, he⟩ := forall₂_mem_right hentries hc
    exact ⟨e.2, (entry_eq_ok.mp he).1⟩
  case keys =>
    intro name
    rw [SortedMap.mem_keys_iff]
    constructor
    · intro hkey
      obtain ⟨out, hout⟩ := hkey
      have hrel := hfind name
      rw [hout] at hrel
      cases hc : p.last? name with
      | none =>
          rw [hc] at hrel
          cases hrel
      | some c => exact ⟨c, mem_of_last? hc⟩
    · intro hc
      obtain ⟨c, hc, rfl⟩ := hc
      obtain ⟨last, hsome⟩ := exists_last? hc
      obtain ⟨out, -, hout⟩ := hlast c.name last hsome
      exact ⟨out, hout⟩
  case last => exact hlast

theorem exists_entries : (∃ entries, p.entries dialect = .ok entries) ↔
    ∀ c ∈ p.ofApplication, ∃ out, c.convert dialect = .ok out := by
  unfold entries
  simp only [exists_mapM_eq_ok, exists_entry_eq_ok]

/-- The conversion makes the entries of the classes and puts them into a map. -/
theorem convert_eq_map :
    p.convert dialect = (p.entries dialect).map .ofList := by
  show (p.entries dialect >>= fun entries => .ok (SortedMap.ofList entries)) = _
  cases p.entries dialect with
  | error f => rfl
  | ok entries => rfl

/-- **The conversion succeeds with the map that the program is converted to, and with no other.** -/
theorem convert_eq_ok : p.convert dialect = .ok classes ↔ p.ConvertsTo dialect classes := by
  rw [convert_eq_map, map_eq_ok]
  constructor
  · intro h
    obtain ⟨entries, hentries, rfl⟩ := h
    exact convertsTo_of_entries hentries
  · intro h
    obtain ⟨entries, hentries⟩ := exists_entries.mpr h.converts
    exact ⟨entries, hentries, (convertsTo_of_entries hentries).unique h⟩

/-- There is such a map exactly if every class of the application is converted. -/
theorem exists_convertsTo : (∃ classes, p.ConvertsTo dialect classes) ↔
    ∀ c ∈ p.ofApplication, ∃ out, c.convert dialect = .ok out := by
  constructor
  · intro h
    obtain ⟨classes, h⟩ := h
    exact h.converts
  · intro h
    obtain ⟨entries, hentries⟩ := exists_entries.mpr h
    exact ⟨_, convertsTo_of_entries hentries⟩

/-- **It fails as it does for the first class of the application that it fails for.** -/
theorem convert_eq_error {f : Failure} :
    p.convert dialect = .error f ↔ p.FirstFailure dialect f := by
  unfold FirstFailure
  simp only [convert_eq_map, entries, map_eq_error, mapM_eq_error, exists_entry_eq_ok,
    entry_eq_error]

end Convert

/-! ### What the conversion does not depend on

Classes outside of the application are never looked at.  The order of the others shows
in two places only, in which failure is met first and in which of two classes with one
name is last.
-/

section Order

variable {p q : Program} {dialect : Dialect} {classes : Code.ClassMap}

/-- Classes outside the application do not count. -/
theorem convert_congr (h : q.ofApplication = p.ofApplication) :
    q.convert dialect = p.convert dialect := by
  have hfilter : q.classes.filter (·.application) = p.classes.filter (·.application) := h
  unfold convert
  rw [hfilter]

theorem ConvertsTo.of_perm (h : p.ConvertsTo dialect classes) (hperm : q.classes.Perm p.classes)
    (hnames : p.DistinctNames) : q.ConvertsTo dialect classes := by
  have hmem : ∀ c, c ∈ q.ofApplication ↔ c ∈ p.ofApplication := fun c =>
    (hperm.filter (·.application)).mem_iff
  have hnames' : q.DistinctNames := (hperm.map Class.name).nodup_iff.mpr hnames
  constructor
  case converts => exact fun c hc => h.converts c ((hmem c).mp hc)
  case keys =>
    intro name
    rw [h.keys]
    simp only [hmem]
  case last =>
    intro name c hc
    rw [hnames'.last?_eq_some, hmem] at hc
    exact h.last name c (hnames.last?_eq_some.mpr hc)

/-- **If names are distinct the order of the classes does not count.** -/
theorem convertsTo_of_perm (hperm : q.classes.Perm p.classes) (hnames : p.DistinctNames) :
    q.ConvertsTo dialect classes ↔ p.ConvertsTo dialect classes := by
  constructor
  · intro h
    exact h.of_perm hperm.symm ((hperm.map Class.name).nodup_iff.mpr hnames)
  · intro h
    exact h.of_perm hperm hnames

end Order

end Program

end Dump

end BytecodeIR
