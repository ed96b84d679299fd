/-
Programs are handed over as text without loss.

The text of a program is read back as the program, with every slot as it was: one that is
empty is written as no value and one that has its default is written like any other.  What
a constant is can be told from the way it is written.  An integer has neither point nor
exponent and fits 64 bits, a real number has a point or an exponent even where it is a
whole number, and a text stands between quotes whatever is in it.

Two things are asked of a program, the same as of lifted classes: its text may not nest
more brackets than a reader allows, and the decimals of its real constants, which have to
be finite, have to be read back as the constants.
-/
import BytecodeIR.Proofs.Code.Codec.Value
import BytecodeIR.Proofs.Dump.Codec
import BytecodeIR.Lifting

namespace BytecodeIR.Dump

open Json (Document Recovers Source)

variable {written : Prop} {src : Source}

/-! ### Constants -/

theorem recovers_integer (i : Int64) :
    Recovers written Constant.decoder src (Constant.integer i).encode (.integer i) := by
  have hbounds : Int64.minValue.toInt ≤ i.toInt ∧ i.toInt ≤ Int64.maxValue.toInt :=
    ⟨i.minValue_le_toInt, i.toInt_le⟩
  have hread : Constant.decoder src (.number (.integer i.toInt)) = .ok (.integer i) := by
    refine (if_neg (by simp [Document.isReadable])).trans ((if_pos hbounds).trans ?_)
    rw [Int64.ofInt_toInt]
  refine .number (fun _ => Json.Number.readable_integer ?_ ?_) hread
  · exact hbounds.1
  · exact Int.lt_of_le_of_lt hbounds.2 (by decide)

theorem recovers_real {x : Double} (hread : written → (Json.Number.real x).Readable) :
    Recovers written Constant.decoder src (Constant.real x).encode (.real x) :=
  .number hread rfl

theorem recovers_constantText (s : String) :
    Recovers written Constant.decoder src (Constant.text s).encode (.text s) := .of_string rfl

/-- **A constant is recovered as what it is if its numeral is.** -/
theorem recovers_constant {c : Constant}
    (h : written → ∀ x, c = .real x → (Json.Number.real x).Readable) :
    Recovers written Constant.decoder src c.encode c := by
  cases c with
  | integer i => exact recovers_integer i
  | real x => exact recovers_real fun hw => h hw x rfl
  | text s => exact recovers_constantText s

/-! ### Programs -/

namespace Program

/-- What is asked of a program: the nesting of its text is allowed, and its real constants are finite
and recovered from their own decimals. -/
structure Survives (p : Program) : Prop where
  depth_le : (Document.ofJson p.encode).depth ≤ Json.nestingLimit
  recoverable : ∀ x, .real x ∈ p.constants → x.isFinite = true ∧ Code.Recoverable x

/-- **The text of a program is read as the program.** -/
theorem ofText_text_encode {p : Program} (h : p.Survives) : ofText p.encode.text = .ok p := by
  refine mapError_eq_ok.mpr ((recovers_program fun c hc => ?_).ofText_text h.depth_le)
  refine recovers_constant fun _ x hx => ?_
  obtain ⟨hfinite, hx⟩ := h.recoverable x (hx ▸ hc)
  exact Code.readable_of_recoverable hfinite hx

/-- A method that returns one of several constants that look alike: a whole number, a real number
with the same value, and texts that read like numbers. -/
def alike : Method where
  name := "pick"
  params := []
  returnType := "java.lang.Object"
  modifiers := 9
  exceptions := ["java.lang.Error"]
  body := some {
    instructions := [{ Instruction.ofKind ⟨7⟩ "JReturnStmt" with
      single := some (.of { Slots.ofKind "SPhiExpr" "java.lang.Object" with
        phiSources := [
          ⟨.of { Slots.ofKind "LongConstant" "long" with value := some (.integer 1) }, ⟨1⟩⟩,
          ⟨.of { Slots.ofKind "DoubleConstant" "double" with value := some (.real (.ofInt 1)) }, ⟨2⟩⟩,
          ⟨.of { Slots.ofKind "StringConstant" "java.lang.String" with value := some (.text "1") },
            ⟨3⟩⟩,
          ⟨.of { Slots.ofKind "StringConstant" "java.lang.String" with
            value := some (.text "1.0") }, ⟨4⟩⟩] }) }]
    blocks := [⟨[⟨7⟩], [0], []⟩] }

/-- A dump with a class of a library, which has no superclass and comes without its fields. -/
def library : Program :=
  ⟨.plain, [{
    name := "lib.Constants", superClass := none, interfaces := ["lib.Named"], modifiers := 1
    application := false, library := true, javaLibrary := false, phantom := false
    fields := [], methods := [alike] }]⟩

theorem ofText_text_library : library.Survives ∧ ofText library.encode.text = .ok library := by
  have h : library.Survives := by
    refine ⟨by decide +kernel, fun x hx => ?_⟩
    obtain rfl : x = .ofInt 1 := by
      have hconstants : library.constants =
        [.integer 1, .real (.ofInt 1), .text "1", .text "1.0"] := by decide +kernel
      rw [hconstants] at hx
      simpa using hx
    exact ⟨by decide +kernel, rfl⟩
  exact ⟨h, ofText_text_encode h⟩

end Program

end BytecodeIR.Dump
