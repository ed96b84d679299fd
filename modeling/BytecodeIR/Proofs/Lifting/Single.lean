/-
Lifting a single class.

A single class is looked up by its name and lifted if it belongs to the application.
So of several classes with one name the first counts, while in the lifting of a whole
program the last one of the application does, and a class outside the application hides
those that come after it.  The two agree about a name exactly if the first class with
it belongs to the application and becomes what the last one becomes; where names are
distinct that is one and the same class.

What is not looked at is the dialect of the program.  A class of a program that is
refused for its dialect is converted as if the program had the dialect that is asked for.
-/
import BytecodeIR.Proofs.Lifting.Whole

namespace BytecodeIR

open Dump (Program)

/-! ### The first class with a name -/

namespace Dump.Program

/-- The first class with a name belongs to the application and is converted. -/
def FirstConverts (p : Program) (dialect : Dialect) (name : String) : Prop :=
  ∃ first, p.class? name = some first ∧ first.application = true ∧
    ∃ out, first.convert dialect = .ok out

/-- Unless no class of the application has a name, the first class with it belongs to the
application and becomes what the last one becomes. -/
def FirstCounts (p : Program) (dialect : Dialect) (name : String) : Prop :=
  ∀ last, p.last? name = some last → ∃ first, p.class? name = some first ∧
    first.application = true ∧ first.convert dialect = last.convert dialect

variable {p : Program} {dialect : Dialect} {name : String} {c : Class}

theorem mem_of_class? (h : p.class? name = some c) : c ∈ p.classes ∧ c.name = name :=
  ⟨List.mem_of_find?_eq_some h, by simpa using List.find?_some h⟩

/-- If names are distinct the first class with a name is the last one. -/
theorem DistinctNames.firstCounts (h : p.DistinctNames) : p.FirstCounts dialect name := by
  intro last hlast
  obtain ⟨hmem, hname⟩ := mem_of_last? hlast
  obtain ⟨hmem, happlication⟩ := List.mem_filter.mp hmem
  have hfirst : p.class? name = some last := (find?_key_eq_some h).mpr ⟨hmem, hname⟩
  exact ⟨last, hfirst, happlication, rfl⟩

end Dump.Program

/-! ### Lifting by name -/

namespace Settings

/-- About a name, the lifting of a single class agrees with a map of lifted classes: it gives what
stands under the name, and knows of no class if nothing does. -/
structure Agrees (s : Settings) (p : Program) (classes : Code.ClassMap) (name : String) : Prop where
  found : ∀ out, s.liftClass p name = .ok out ↔ classes.get? name = some out
  unknown : ∀ fault, s.liftClass p name = .error fault → fault = .unknownClass name

variable {s : Settings} {p : Program} {files files' : Tree} {classes : Code.ClassMap}
  {name : String}

theorem liftClass_eq_ok {out : Code.Class} : s.liftClass p name = .ok out ↔
    ∃ c, p.class? name = some c ∧ c.application = true ∧ c.convert s.dialect = .ok out := by
  unfold liftClass
  cases p.class? name with
  | none => simp
  | some c =>
      by_cases hc : c.application = true
      · simp [hc, mapError_eq_ok]
      · simp [hc]

/-- A class is unknown, or its conversion fails. -/
theorem liftClass_eq_error {fault : LiftingFault} : s.liftClass p name = .error fault ↔
    (.unknownClass name = fault ∧ ∀ c, p.class? name = some c → c.application = false) ∨
      ∃ c f, p.class? name = some c ∧ c.application = true ∧ c.convert s.dialect = .error f ∧
        .conversion f = fault := by
  unfold liftClass
  cases p.class? name with
  | none => simp
  | some c =>
      by_cases hc : c.application = true
      · simp [hc, mapError_eq_error]
      · simp [hc]

theorem exists_liftClass_eq_error :
    (∃ fault, s.liftClass p name = .error fault) ↔ ¬ p.FirstConverts s.dialect name := by
  have hok : (∃ out, s.liftClass p name = .ok out) ↔ p.FirstConverts s.dialect name := by
    simp only [liftClass_eq_ok]
    constructor
    · intro h
      obtain ⟨out, c, hc, happlication, hout⟩ := h
      exact ⟨c, hc, happlication, out, hout⟩
    · intro h
      obtain ⟨c, hc, happlication, out, hout⟩ := h
      exact ⟨out, c, hc, happlication, hout⟩
  rw [← hok]
  cases s.liftClass p name with
  | error fault => simp
  | ok out => simp

/-- If a program is lifted, a single class is unknown or lifted, and no conversion fails. -/
theorem unknown_of_converts (h : p.ConvertsTo s.dialect classes) {fault : LiftingFault}
    (hfault : s.liftClass p name = .error fault) : fault = .unknownClass name := by
  rcases liftClass_eq_error.mp hfault with hunknown | ⟨c, f, hc, happlication, hf, -⟩
  · exact hunknown.1.symm
  · have hmem : c ∈ p.ofApplication :=
      List.mem_filter.mpr ⟨(Program.mem_of_class? hc).1, happlication⟩
    obtain ⟨out, hout⟩ := h.converts c hmem
    rw [hf] at hout
    cases hout

theorem agrees_iff (h : p.ConvertsTo s.dialect classes) :
    s.Agrees p classes name ↔ p.FirstCounts s.dialect name := by
  constructor
  · intro hagrees last hlast
    obtain ⟨out, hconvert, hout⟩ := h.last name last hlast
    obtain ⟨first, hfirst, happlication, hout'⟩ := liftClass_eq_ok.mp ((hagrees.found out).mpr hout)
    exact ⟨first, hfirst, happlication, hout'.trans hconvert.symm⟩
  · intro hcounts
    constructor
    case found =>
      intro out
      rw [liftClass_eq_ok, h.get?_eq_some]
      constructor
      · intro hfound
        obtain ⟨first, hfirst, happlication, hout⟩ := hfound
        obtain ⟨hmem, rfl⟩ := Program.mem_of_class? hfirst
        obtain ⟨last, hlast⟩ := Program.exists_last? (List.mem_filter.mpr ⟨hmem, happlication⟩)
        obtain ⟨first', hfirst', -, hsame⟩ := hcounts last hlast
        rw [hfirst] at hfirst'
        obtain rfl := Option.some.inj hfirst'
        exact ⟨last, hlast, hsame ▸ hout⟩
      · intro hfound
        obtain ⟨last, hlast, hout⟩ := hfound
        obtain ⟨first, hfirst, happlication, hsame⟩ := hcounts last hlast
        exact ⟨first, hfirst, happlication, hsame.trans hout⟩
    case unknown => exact fun fault hfault => unknown_of_converts h hfault

/-- **A single class is lifted as in the whole program exactly if the first class with its name
counts, which is so if names are distinct.  Of a program that is refused for its dialect a single
class is refused exactly if the first class with its name would not be converted.** -/
theorem liftClass_agrees_iff (s : Settings) (p : Program) (files : Tree) :
    (∀ classes files', s.lift p files = .ok (classes, files') →
      ∀ name, s.Agrees p classes name ↔ p.FirstCounts s.dialect name) ∧
      (p.DistinctNames → ∀ name, p.FirstCounts s.dialect name) ∧
      (s.lift p files = .error (.settings (.dialectMismatch s.dialect p.dialect)) →
        ∀ name, (∃ fault, s.liftClass p name = .error fault) ↔
          ¬ p.FirstConverts s.dialect name) := by
  refine ⟨fun classes files' h name => ?_, fun h name => h.firstCounts, fun _ name => ?_⟩
  · exact agrees_iff (Program.convert_eq_ok.mp (converted_of_lift h).1)
  · exact exists_liftClass_eq_error

/-- A class of a library with nothing in it. -/
def libraryClass (name : String) : Dump.Class :=
  { Dump.Class.ofName name with application := false, library := true }

/-- A class of the application and one of a library. -/
def appAndLibrary (dialect : Dialect) : Program :=
  ⟨dialect, [.ofName "a.App", libraryClass "java.util.List"]⟩

theorem liftClass_agrees_appAndLibrary :
    (∃ classes, default.lift (appAndLibrary .singleAssignment) .empty = .ok (classes, .empty) ∧
      ∀ name, default.Agrees (appAndLibrary .singleAssignment) classes name) ∧
      default.lift (appAndLibrary .plain) .empty =
        .error (.settings (.dialectMismatch .singleAssignment .plain)) ∧
      ∃ fault, default.liftClass (appAndLibrary .plain) "java.util.List" = .error fault := by
  have hlift := liftClass_agrees_iff default (appAndLibrary .singleAssignment) .empty
  have hrefuse := liftClass_agrees_iff default (appAndLibrary .plain) .empty
  refine ⟨⟨_, rfl, fun name => ?_⟩, rfl, (hrefuse.2.2 rfl _).mpr ?_⟩
  · exact (hlift.1 _ _ rfl name).mpr (hlift.2.1 (by decide) name)
  · intro h
    obtain ⟨first, hfirst, happlication, -⟩ := h
    obtain rfl := Option.some.inj (hfirst : some (libraryClass "java.util.List") = some first)
    cases happlication

/-- A class of a library and then one of the application with the same name. -/
def shadowed : Program :=
  ⟨.singleAssignment, [libraryClass "a.App", .ofName "a.App"]⟩

/-- **A class is lifted out of a program that is refused for its dialect, and a class that is lifted
with its program may be unknown by its name.** -/
theorem not_liftClass_agrees :
    (default.lift (appAndLibrary .plain) .empty =
      .error (.settings (.dialectMismatch .singleAssignment .plain)) ∧
        ∃ out, default.liftClass (appAndLibrary .plain) "a.App" = .ok out) ∧
      ∃ classes out, default.lift shadowed .empty = .ok (classes, .empty) ∧
        classes.get? "a.App" = some out ∧
        default.liftClass shadowed "a.App" = .error (.unknownClass "a.App") :=
  ⟨⟨rfl, _, rfl⟩, _, _, rfl, rfl, rfl⟩

end Settings

end BytecodeIR
