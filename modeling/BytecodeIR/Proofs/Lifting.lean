/-
Classes that were saved are loaded as they were.

The text of a class is read back as the class, and the file of a map of classes as
the map, for every class that can be built.  Two things are asked of it.  Its text
may not open more brackets at once than a reader allows, and each of its real
constants has to be one that is read back when it stands alone: the reader rounds
the decimals of some doubles differently than the printer does.
-/
import BytecodeIR.Lifting
import BytecodeIR.Proofs.Code.Codec.Class
import BytecodeIR.Proofs.Files.Tree

namespace BytecodeIR.Code

open Json (Document)

/-- What is asked of a JSON value and of the real constants in it: the nesting is allowed, and each
constant is recovered from its own form. -/
structure Survives (j : Json) (reals : List Double) : Prop where
  /-- The text of the value has at most as many brackets open at once as a reader allows. -/
  depth_le : (Document.ofJson j).depth ≤ Json.nestingLimit
  recoverable : ∀ x ∈ reals, Recoverable x

theorem ofText_classes {classes : ClassMap}
    (h : Survives (encodeClasses classes) (ClassMap.reals classes)) :
    classesDecoder.ofText (encodeClasses classes).text = .ok classes :=
  (recovers_classes (by decide) h.recoverable).ofText_text h.depth_le

theorem loadClasses_of_saveClasses {classes : ClassMap}
    (h : Survives (encodeClasses classes) (ClassMap.reals classes)) {path : Path}
    {files files' : Tree} (hsave : saveClasses classes path files = .ok files') :
    loadClasses path files' = .ok classes := by
  unfold saveClasses at hsave
  cases hwrite : files.write path (encodeClasses classes).text with
  | error e =>
      rw [hwrite] at hsave
      cases hsave
  | ok written =>
      rw [hwrite] at hsave
      obtain rfl : written = files' := Except.ok.inj hsave
      unfold loadClasses Tree.readText
      rw [(Tree.replaces_of_write hwrite).read]
      show (classesDecoder.ofText (encodeClasses classes).text).mapError _ = _
      rw [ofText_classes h]
      rfl

/-- **A class is read from its text, and saved classes are loaded, exactly as they were.** -/
theorem codec_round_trip :
    (∀ c : Class, Survives c.encode c.reals → Class.decoder.ofText c.encode.text = .ok c) ∧
      ∀ classes : ClassMap, Survives (encodeClasses classes) (ClassMap.reals classes) →
        classesDecoder.ofText (encodeClasses classes).text = .ok classes ∧
          ∀ path files files', saveClasses classes path files = .ok files' →
            loadClasses path files' = .ok classes :=
  ⟨fun _ h => (recovers_class (by decide) h.recoverable).ofText_text h.depth_le,
    fun _ h => ⟨ofText_classes h, fun _ _ _ hsave => loadClasses_of_saveClasses h hsave⟩⟩

/-- A method that adds a half to a variable over and over. -/
def ticking : Method where
  className := "Clock"
  name := "tick"
  params := []
  returnType := "void"
  attributes := [.isPublic]
  exceptions := ["java.lang.Error"]
  blocks := [⟨⟨0⟩, ⟨0⟩, [
    ⟨⟨0⟩, 0, .assign (.localVariable "x" "double") (.ofExpr (.binary "double" .add
      (.localVariable "x" "double") (.of (.doubleConstant "double" (.nearest false 1 2)))))⟩,
    ⟨⟨1⟩, 4, .goto ⟨0⟩⟩]⟩]
  successors := .ofList [(⟨0⟩, [⟨0⟩])]
  exceptionalPredecessors := ∅

/-- The class of `ticking`. -/
def clock : Class := ⟨"Clock", "java.lang.Object", [], [.isPublic], [ticking], []⟩

theorem survives_clock : Survives clock.encode clock.reals := by
  refine ⟨by decide +kernel, ?_⟩
  rw [show clock.reals = [.nearest false 1 2] from rfl, List.forall_mem_singleton]
  rfl

theorem codec_round_trip_clock :
    Class.decoder.ofText clock.encode.text = .ok clock ∧
      ∃ files, saveClasses (.ofList [("Clock", clock)]) ⟨"out.json"⟩ .empty = .ok files ∧
        loadClasses ⟨"out.json"⟩ files = .ok (.ofList [("Clock", clock)]) := by
  have hclasses : Survives (encodeClasses (.ofList [("Clock", clock)]))
      (ClassMap.reals (.ofList [("Clock", clock)])) :=
    ⟨by decide +kernel, survives_clock.recoverable⟩
  exact ⟨codec_round_trip.1 clock survives_clock, _, rfl,
    (codec_round_trip.2 _ hclasses).2 ⟨"out.json"⟩ .empty _ rfl⟩

end BytecodeIR.Code
