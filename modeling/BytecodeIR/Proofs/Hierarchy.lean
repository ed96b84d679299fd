/-
Lifted classes and the hierarchy tell the same story.

A hierarchy is made of the classes of a dump as they are, and a lifted class of one of
them by the conversion.  Both read the attribute of interfaces from the same word, the
one as a bit of it and the other in the list of all its attributes, and both take the
superclass that the dump names.

There is one exception.  The root of all classes has no superclass whatever the dump
says, when it is lifted; a hierarchy takes the dump at its word.
-/
import BytecodeIR.Hierarchy
import BytecodeIR.Proofs.Code.Attribute
import BytecodeIR.Proofs.Lifting.Whole

namespace BytecodeIR

open Code (Attribute)
open Dump (Program)

/-! ### Attributes of a word -/

namespace Code.Attribute

/-- An attribute is among those of a word exactly if its bit is set. -/
theorem mem_ofWord {a : Attribute} {bit : UInt32} (h : a.bit? = some bit) {word : UInt32} :
    a ∈ ofWord word ↔ word &&& bit ≠ 0 := by
  -- No two bits belong to one attribute.
  have honce : ∀ e ∈ bits, e.2.bit? = some e.1 := by decide
  unfold ofWord
  rw [List.mem_map]
  constructor
  · intro hmem
    obtain ⟨e, he, rfl⟩ := hmem
    obtain ⟨he, hset⟩ := List.mem_filter.mp he
    rw [honce e he] at h
    obtain rfl := Option.some.inj h
    simpa using hset
  · intro hset
    obtain ⟨e, he, rfl⟩ := Option.map_eq_some_iff.mp h
    have ha : e.2 = a := by simpa using List.find?_some he
    exact ⟨e, List.mem_filter.mpr ⟨List.mem_of_find?_eq_some he, by simpa using hset⟩, ha⟩

end Code.Attribute

/-! ### What a hierarchy knows of a class -/

namespace Dump.Program

/-- The classes that a dump declares to extend a class, in the order of the dump. -/
def extending (p : Program) (parent : String) : List String :=
  (p.classes.filter fun c => c.superClass = some parent).map (·.name)

theorem mem_extending {p : Program} {name parent : String} :
    name ∈ p.extending parent ↔ ∃ c ∈ p.classes, c.name = name ∧ c.superClass = some parent := by
  simp only [extending, List.mem_map, List.mem_filter, decide_eq_true_eq]
  grind

end Dump.Program

namespace Hierarchy

variable {p : Program} {name parent : String}

/-- A class is an interface if the bit of interfaces is set in its word. -/
theorem isInterface_iff : (ofProgram p).isInterface name = true ↔
    ∃ c ∈ p.classes, c.name = name ∧ c.modifiers &&& 0x200 ≠ 0 := by
  have hbit : Attribute.interface.bit?.getD 0 = 0x200 := rfl
  simp only [isInterface, ofProgram, hbit, List.contains_iff_mem, List.mem_map, List.mem_filter,
    bne_iff_ne]
  constructor
  · intro h
    obtain ⟨c, ⟨hc, hset⟩, hname⟩ := h
    exact ⟨c, hc, hname, hset⟩
  · intro h
    obtain ⟨c, hc, hname, hset⟩ := h
    exact ⟨c, ⟨hc, hset⟩, hname⟩

/-- The direct subclasses of a class are those that the dump declares to extend it. -/
theorem directSubclasses_ofProgram : (ofProgram p).directSubclasses = p.extending := by
  funext parent
  simp only [directSubclasses, ofProgram, Program.extending]
  induction p.classes with
  | nil => rfl
  | cons c classes ih => cases hsuper : c.superClass <;> grind

/-- A class extends another one directly if the dump says so. -/
theorem mem_directSubclasses : name ∈ (ofProgram p).directSubclasses parent ↔
    ∃ c ∈ p.classes, c.name = name ∧ c.superClass = some parent := by
  rw [directSubclasses_ofProgram, Program.mem_extending]

end Hierarchy

/-! ### What the conversion takes over -/

namespace Dump

variable {c : Class} {dialect : Dialect} {out : Code.Class}

/-- The superclass and the attributes of a converted class. -/
theorem converted_class (h : c.convert dialect = .ok out) :
    c.superClassName = .ok out.superClass ∧
      out.attributes = Attribute.ofWord c.modifiers ++ c.origin := by
  obtain ⟨superClass, hsuper, h⟩ := bind_eq_ok.mp h
  obtain ⟨declared, hdeclared, h⟩ := bind_eq_ok.mp h
  obtain ⟨fields, -, h⟩ := bind_eq_ok.mp h
  obtain ⟨methods, -, h⟩ := bind_eq_ok.mp h
  obtain rfl := Except.ok.inj h
  rw [← eq_of_ite_eq_ok hdeclared]
  exact ⟨hsuper, rfl⟩

/-- A converted class is an interface exactly if the bit of interfaces is set. -/
theorem isInterface_of_convert (h : c.convert dialect = .ok out) :
    out.isInterface = true ↔ c.modifiers &&& 0x200 ≠ 0 := by
  have hbit : Attribute.interface.bit? = some 0x200 := rfl
  have horigin : Attribute.interface ∉ c.origin := by
    unfold Class.origin
    cases c.library <;> cases c.javaLibrary <;> cases c.phantom <;> decide
  unfold Code.Class.isInterface
  rw [(converted_class h).2, List.contains_iff_mem, List.mem_append, or_iff_left horigin,
    Attribute.mem_ofWord hbit]

theorem superClass_of_root (h : c.convert dialect = .ok out) (hroot : c.name = rootClass) :
    out.superClass = "" := by
  have hsuper := (converted_class h).1
  unfold Class.superClassName at hsuper
  rw [if_pos hroot] at hsuper
  exact (Except.ok.inj hsuper).symm

theorem superClass_of_convert (h : c.convert dialect = .ok out) (hroot : c.name ≠ rootClass) :
    c.superClass = some out.superClass := by
  have hsuper := (converted_class h).1
  unfold Class.superClassName at hsuper
  rw [if_neg hroot] at hsuper
  split at hsuper
  · rename_i name hname
    rw [hname, Except.ok.inj hsuper]
  · cases hsuper

/-- The dump names a superclass of the root of all classes. -/
def Program.RootExtends (p : Program) (parent : String) : Prop :=
  ∃ c ∈ p.classes, c.name = rootClass ∧ c.superClass = some parent

end Dump

/-! ### Both together -/

namespace Settings

variable {s : Settings} {p : Program} {files files' : Tree} {classes : Code.ClassMap}
  {name : String} {out : Code.Class}

/-- A lifted class is made of the only class with its name. -/
theorem exists_of_lift (hnames : p.DistinctNames) (h : s.lift p files = .ok (classes, files'))
    (hout : classes.get? name = some out) :
    ∃ c, c.convert s.dialect = .ok out ∧ ∀ c', c' ∈ p.classes ∧ c'.name = name ↔ c' = c := by
  have hclasses := Program.convert_eq_ok.mp (converted_of_lift h).1
  obtain ⟨c, hlast, hconvert⟩ := hclasses.get?_eq_some.mp hout
  obtain ⟨hc, hname⟩ := Program.mem_of_last? hlast
  have hc := (List.mem_filter.mp hc).1
  refine ⟨c, hconvert, fun c' => ?_⟩
  constructor
  · intro h
    obtain ⟨hc', hname'⟩ := h
    exact List.inj_on_of_nodup_map hnames hc' hc (hname'.trans hname.symm)
  · intro h
    obtain rfl := h
    exact ⟨hc, hname⟩

/-- **Where names are distinct, a lifted class is an interface exactly if the hierarchy says so, and
it extends what it extends in the hierarchy.  The one exception is the root of all classes: it
extends nothing when it is lifted, and in the hierarchy what the dump says.** -/
theorem lift_matches_hierarchy (hnames : p.DistinctNames)
    (h : s.lift p files = .ok (classes, files')) (hout : classes.get? name = some out) :
    out.isInterface = (Hierarchy.ofProgram p).isInterface name ∧
      (∀ parent, parent ≠ "" → ¬ (name = rootClass ∧ p.RootExtends parent) →
        (name ∈ (Hierarchy.ofProgram p).directSubclasses parent ↔ out.superClass = parent)) ∧
      (name = rootClass → out.superClass = "" ∧ ∀ parent,
        name ∈ (Hierarchy.ofProgram p).directSubclasses parent ↔ p.RootExtends parent) := by
  obtain ⟨c, hconvert, honly⟩ := exists_of_lift hnames h hout
  obtain ⟨hc, hname⟩ := (honly c).mpr rfl
  have hexists : ∀ q : Dump.Class → Prop, (∃ c' ∈ p.classes, c'.name = name ∧ q c') ↔ q c := by
    intro q
    simp only [← and_assoc, honly, exists_eq_left]
  refine ⟨?_, ?_, ?_⟩
  · rw [Bool.eq_iff_iff, Dump.isInterface_of_convert hconvert, Hierarchy.isInterface_iff, hexists]
  · intro parent hparent hnot
    rw [Hierarchy.mem_directSubclasses, hexists]
    by_cases hroot : name = rootClass
    · -- The dump names no such superclass, and the lifted class has none.
      rw [Dump.superClass_of_root hconvert (hname.trans hroot)]
      refine iff_of_false (fun hsuper => hnot ⟨hroot, ?_⟩) (Ne.symm hparent)
      exact ⟨c, hc, hname.trans hroot, hsuper⟩
    · rw [Dump.superClass_of_convert hconvert (hname ▸ hroot), Option.some.injEq]
  · intro hroot
    refine ⟨Dump.superClass_of_root hconvert (hname.trans hroot), fun parent => ?_⟩
    rw [Hierarchy.mem_directSubclasses, hroot]
    rfl

/-- The root of all classes, an interface below it and a class. -/
def family : Program :=
  ⟨.singleAssignment, [{ Dump.Class.ofName rootClass with superClass := none },
    { Dump.Class.ofName "a.Shape" with modifiers := 0x601 }, .ofName "a.Square"]⟩

theorem lift_matches_hierarchy_family : family.DistinctNames ∧
    ∃ classes out, default.lift family .empty = .ok (classes, .empty) ∧
      classes.get? "a.Shape" = some out ∧
      out.isInterface = (Hierarchy.ofProgram family).isInterface "a.Shape" ∧
      ("a.Shape" ∈ (Hierarchy.ofProgram family).directSubclasses rootClass ↔
        out.superClass = rootClass) := by
  have hmatches := lift_matches_hierarchy (show family.DistinctNames by decide)
    (show default.lift family .empty = .ok (_, .empty) from rfl)
    (show SortedMap.get? _ "a.Shape" = some _ from rfl)
  refine ⟨by decide, _, _, rfl, rfl, hmatches.1, hmatches.2.1 rootClass (by decide) ?_⟩
  intro h
  exact absurd h.1 (by decide)

/-- A dump that names a superclass of the root of all classes. -/
def rootedProgram : Program :=
  ⟨.singleAssignment, [{ Dump.Class.ofName rootClass with superClass := some "x" }]⟩

/-- **The hierarchy lists the root below a class that it does not extend when it is lifted.** -/
theorem not_lift_matches_hierarchy : rootedProgram.DistinctNames ∧
    ∃ classes out, default.lift rootedProgram .empty = .ok (classes, .empty) ∧
      classes.get? rootClass = some out ∧
      rootClass ∈ (Hierarchy.ofProgram rootedProgram).directSubclasses "x" ∧
      out.superClass ≠ "x" :=
  ⟨by decide, _, _, rfl, rfl, by decide, by decide⟩

end Settings

end BytecodeIR
