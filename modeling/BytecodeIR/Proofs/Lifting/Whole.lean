/-
Lifting a program is all or nothing.

The classes of the application are converted one after the other, and the first that
fails ends the lifting.  Files are touched once, at the very end, and a write that
fails leaves them as they were.  So a lifting that is refused has changed nothing.

A function from files to files cannot show this, since a failure of it has no files to
show.  `liftInPlace` lifts where the files are: what it has done to them before it fails
stays done.  It is shown to do what `lift` says, and to leave the files alone when it
fails.
-/
import BytecodeIR.Proofs.Conversion.Program
import BytecodeIR.Proofs.Files.Tree

namespace BytecodeIR

open Conversion (Failure)
open Dump (Program)

/-- A computation on files that may fail; what was done to the files before stays done. -/
abbrev OnFiles := ExceptT LiftingFault (StateM Tree)

namespace Settings

/-! ### Lifting in place -/

/-- Converts one more class, if it belongs to the application. -/
def convertNext (s : Settings) (classes : Code.ClassMap) (c : Dump.Class) :
    OnFiles Code.ClassMap :=
  if c.application then
    match c.convert s.dialect with
    | .ok out => pure (classes.insert c.name out)
    | .error f => throw (.conversion f)
  else pure classes

/-- Saves classes where the settings say, if they say so. -/
def saveInPlace (s : Settings) (classes : Code.ClassMap) : OnFiles Unit :=
  match s.saveTo with
  | none => pure ()
  | some path => do
    let files ← get
    match files.write path (Code.encodeClasses classes).text with
    | .ok files => set files
    | .error e => throw (.file path e)

/-- Lifts a program where the files are. -/
def liftInPlace (s : Settings) (p : Program) : OnFiles Code.ClassMap := do
  if p.dialect ≠ s.dialect then throw (.settings (.dialectMismatch s.dialect p.dialect))
  let classes ← p.classes.foldlM s.convertNext ∅
  s.saveInPlace classes
  pure classes

/-- What something on files comes to that either succeeds with other files, or fails and leaves
them as they were. -/
def outcome {α : Type} (files : Tree) :
    Except LiftingFault (α × Tree) → Except LiftingFault α × Tree
  | .ok (a, files') => (.ok a, files')
  | .error fault => (.error fault, files)

section InPlace

variable {s : Settings} {p : Program} {files : Tree} {classes : Code.ClassMap}

theorem run_bind {α β : Type} (x : OnFiles α) (f : α → OnFiles β) :
    (x >>= f).run.run files = match x.run.run files with
      | (.ok a, files') => (f a).run.run files'
      | (.error fault, files') => (.error fault, files') := by
  show (x.run >>= fun r => ExceptT.bindCont f r).run files = _
  rw [StateT.run_bind]
  cases h : x.run.run files with
  | mk r files' =>
      cases r with
      | ok a => rfl
      | error fault => rfl

/-- One more class is converted, and the files stay as they are. -/
theorem run_convertNext {c : Dump.Class} (hc : c.application = true) :
    (s.convertNext classes c).run.run files =
      (((c.convert s.dialect).mapError .conversion).map fun out => classes.insert c.name out,
        files) := by
  unfold convertNext
  rw [if_pos hc]
  cases c.convert s.dialect with
  | ok out => rfl
  | error f => rfl

/-- Classes are converted one by one and put into the map that there is. -/
theorem run_convertEach (cs : List Dump.Class) :
    (cs.foldlM s.convertNext classes).run.run files =
      ((((cs.filter (·.application)).mapM fun c : Dump.Class => c.entry s.dialect).mapError
        LiftingFault.conversion).map
          fun entries => entries.foldl (fun m e => m.insert e.1 e.2) classes, files) := by
  induction cs generalizing classes with
  | nil => rfl
  | cons c rest ih =>
      rw [List.foldlM_cons, run_bind]
      by_cases hc : c.application = true
      · rw [run_convertNext hc, List.filter_cons_of_pos hc, List.mapM_cons]
        cases hconvert : c.convert s.dialect with
        | error f =>
            rw [Dump.entry_eq_error.mpr hconvert]
            rfl
        | ok out =>
            rw [show c.entry s.dialect = .ok (c.name, out) from
              Dump.entry_eq_ok.mpr ⟨hconvert, rfl⟩]
            refine ih.trans ?_
            cases (rest.filter (·.application)).mapM fun c : Dump.Class => c.entry s.dialect with
            | error f => rfl
            | ok entries => rfl
      · have hskip : s.convertNext classes c = pure classes := if_neg hc
        rw [hskip, List.filter_cons_of_neg hc]
        exact ih

/-- All classes are converted as the conversion of the program says. -/
theorem run_convertAll : (p.classes.foldlM s.convertNext ∅).run.run files =
    ((p.convert s.dialect).mapError .conversion, files) := by
  rw [run_convertEach, Program.convert_eq_map]
  show ((p.entries s.dialect).mapError _ |>.map _, files) = _
  cases p.entries s.dialect with
  | error f => rfl
  | ok entries => rfl

/-- Saving in place is saving, and nothing where that fails. -/
theorem run_saveInPlace : (s.saveInPlace classes).run.run files =
    outcome files ((s.save classes files).map fun files' => ((), files')) := by
  unfold saveInPlace save
  cases s.saveTo with
  | none => rfl
  | some path =>
      unfold Code.saveClasses
      dsimp only
      rw [run_bind]
      show ((match files.write path (Code.encodeClasses classes).text with
        | .ok files => set files
        | .error e => throw (LiftingFault.file path e) : OnFiles Unit)).run.run files = _
      cases files.write path (Code.encodeClasses classes).text with
      | ok files' => rfl
      | error e => rfl

/-- **Lifting in place does what lifting says, and leaves the files as they were if it fails.** -/
theorem run_liftInPlace : (s.liftInPlace p).run.run files = outcome files (s.lift p files) := by
  unfold liftInPlace lift
  by_cases hdialect : p.dialect = s.dialect
  · rw [if_neg (not_not.mpr hdialect), if_neg (not_not.mpr hdialect)]
    dsimp only
    rw [run_bind, run_convertAll]
    cases p.convert s.dialect with
    | error f => rfl
    | ok classes =>
        show (s.saveInPlace classes >>= fun _ => pure classes).run.run files = outcome files
          (s.save classes files >>= fun files' => .ok (classes, files'))
        rw [run_bind, run_saveInPlace]
        cases s.save classes files with
        | error fault => rfl
        | ok files' => rfl
  · rw [if_pos hdialect, if_pos hdialect]
    rfl

end InPlace

/-! ### What lifting comes to -/

/-- Saving has left the files as the settings say: one file holds the text of the classes and no
other has changed, or none has changed at all. -/
def Saved (s : Settings) (classes : Code.ClassMap) (files files' : Tree) : Prop :=
  match s.saveTo with
  | none => files' = files
  | some path => files.Replaces files' path (Code.encodeClasses classes).text

/-- A program is refused with a fault; what stands earlier here comes first. -/
inductive Refuses (s : Settings) (p : Program) (files : Tree) : LiftingFault → Prop
  | dialect (h : p.dialect ≠ s.dialect) :
      Refuses s p files (.settings (.dialectMismatch s.dialect p.dialect))
  | conversion (hdialect : p.dialect = s.dialect) {f : Failure}
      (h : p.FirstFailure s.dialect f) : Refuses s p files (.conversion f)
  | save (hdialect : p.dialect = s.dialect) {classes : Code.ClassMap}
      (hclasses : p.ConvertsTo s.dialect classes) {path : Path} (hpath : s.saveTo = some path)
      {e : FileError} (h : files.write path (Code.encodeClasses classes).text = .error e) :
      Refuses s p files (.file path e)

section Lift

variable {s : Settings} {p q : Program} {files files' : Tree} {classes : Code.ClassMap}

theorem lift_eq_ok : s.lift p files = .ok (classes, files') ↔
    p.dialect = s.dialect ∧ p.convert s.dialect = .ok classes ∧
      s.save classes files = .ok files' := by
  unfold lift
  by_cases hdialect : p.dialect = s.dialect
  · rw [if_neg (not_not.mpr hdialect)]
    simp [bind_eq_ok, mapError_eq_ok, hdialect]
  · rw [if_pos hdialect]
    exact iff_of_false nofun fun h => hdialect h.1

/-- A lifting converts the program and saves what it converted. -/
theorem converted_of_lift (h : s.lift p files = .ok (classes, files')) :
    p.convert s.dialect = .ok classes ∧ s.save classes files = .ok files' :=
  (lift_eq_ok.mp h).2

theorem save_eq_error {fault : LiftingFault} : s.save classes files = .error fault ↔
    ∃ path e, s.saveTo = some path ∧
      files.write path (Code.encodeClasses classes).text = .error e ∧ .file path e = fault := by
  unfold save Code.saveClasses
  cases s.saveTo with
  | none => simp
  | some path => simp [mapError_eq_error]

theorem saved_of_save (h : s.save classes files = .ok files') : s.Saved classes files files' := by
  revert h
  unfold save Saved
  cases s.saveTo with
  | none =>
      intro h
      exact (Except.ok.inj h).symm
  | some path =>
      intro h
      exact Tree.replaces_of_write (mapError_eq_ok.mp h)

theorem lift_eq_error {fault : LiftingFault} :
    s.lift p files = .error fault ↔ s.Refuses p files fault := by
  unfold lift
  by_cases hdialect : p.dialect = s.dialect
  · rw [if_neg (not_not.mpr hdialect)]
    simp only [bind_eq_error, mapError_eq_error, mapError_eq_ok, save_eq_error,
      Program.convert_eq_ok, Program.convert_eq_error, reduceCtorEq, and_false, exists_false,
      or_false]
    constructor
    · intro h
      rcases h with ⟨f, hf, rfl⟩ | ⟨classes, hclasses, path, e, hpath, he, rfl⟩
      · exact .conversion hdialect hf
      · exact .save hdialect hclasses hpath he
    · intro h
      cases h with
      | dialect h => exact absurd hdialect h
      | conversion _ hf => exact .inl ⟨_, hf, rfl⟩
      | save _ hclasses hpath he => exact .inr ⟨_, hclasses, _, _, hpath, he, rfl⟩
  · rw [if_pos hdialect]
    constructor
    · intro h
      obtain rfl := Except.error.inj h
      exact .dialect hdialect
    · intro h
      cases h with
      | dialect => rfl
      | conversion h => exact absurd h hdialect
      | save h => exact absurd h hdialect

/-- Whether a program is lifted, and to what, is a matter of its dialect and of the classes of its
application. -/
theorem lift_congr (hdialect : q.dialect = p.dialect) (h : q.ofApplication = p.ofApplication) :
    s.lift q files = s.lift p files := by
  unfold lift
  rw [hdialect, Program.convert_congr h]

theorem lift_of_perm (hdialect : q.dialect = p.dialect) (hperm : q.classes.Perm p.classes)
    (hnames : p.DistinctNames) :
    s.lift q files = .ok (classes, files') ↔ s.lift p files = .ok (classes, files') := by
  rw [lift_eq_ok, lift_eq_ok, hdialect, Program.convert_eq_ok, Program.convert_eq_ok,
    Program.convertsTo_of_perm hperm hnames]

end Lift

/-! ### All or nothing -/

/-- All that can be said of a lifting. -/
structure AllOrNothing (s : Settings) (p : Program) (files : Tree) : Prop where
  succeeds : (∃ lifted, s.lift p files = .ok lifted) ↔
    p.dialect = s.dialect ∧ (∀ c ∈ p.ofApplication, ∃ out, c.convert s.dialect = .ok out) ∧
      ∀ classes, p.ConvertsTo s.dialect classes → ∃ files', s.save classes files = .ok files'
  gives : ∀ classes files', s.lift p files = .ok (classes, files') →
    p.ConvertsTo s.dialect classes ∧ s.Saved classes files files'
  refuses : ∀ fault, s.lift p files = .error fault ↔ s.Refuses p files fault
  /-- Whoever lifts where the files are finds them as they were after a failure. -/
  inPlace : (s.liftInPlace p).run.run files = outcome files (s.lift p files)
  /-- Classes outside the application do not matter, whatever they are. -/
  others : ∀ q : Program, q.dialect = p.dialect → q.ofApplication = p.ofApplication →
    s.lift q files = s.lift p files
  /-- The order of the classes does not matter to a success, unless names repeat. -/
  order : ∀ q : Program, q.dialect = p.dialect → q.classes.Perm p.classes → p.DistinctNames →
    ∀ lifted, s.lift q files = .ok lifted ↔ s.lift p files = .ok lifted

/-- **Lifting is all or nothing.** -/
theorem lift_allOrNothing (s : Settings) (p : Program) (files : Tree) :
    s.AllOrNothing p files := by
  constructor
  case succeeds =>
    constructor
    · intro h
      obtain ⟨⟨classes, files'⟩, h⟩ := h
      obtain ⟨hdialect, hconvert, hsave⟩ := lift_eq_ok.mp h
      have hclasses := Program.convert_eq_ok.mp hconvert
      refine ⟨hdialect, hclasses.converts, fun classes' hclasses' => ⟨files', ?_⟩⟩
      rw [hclasses'.unique hclasses]
      exact hsave
    · intro h
      obtain ⟨hdialect, hconverts, hsaves⟩ := h
      obtain ⟨classes, hclasses⟩ := Program.exists_convertsTo.mpr hconverts
      obtain ⟨files', hsave⟩ := hsaves classes hclasses
      have hconvert := Program.convert_eq_ok.mpr hclasses
      exact ⟨(classes, files'), lift_eq_ok.mpr ⟨hdialect, hconvert, hsave⟩⟩
  case gives =>
    intro classes files' h
    obtain ⟨hconvert, hsave⟩ := converted_of_lift h
    exact ⟨Program.convert_eq_ok.mp hconvert, saved_of_save hsave⟩
  case refuses => exact fun fault => lift_eq_error
  case inPlace => exact run_liftInPlace
  case others => exact fun q => lift_congr
  case order => exact fun q hdialect hperm hnames lifted => lift_of_perm hdialect hperm hnames

end Settings

end BytecodeIR
