/-
Which real constants survive being saved.

A real constant is converted to the double that its number or its text denotes.  A
finite double is saved as its numeral and any other as its name, and both are read back
as the double that they were written for, with one exception: a NaN has a sign, which
its name does not show.  So every NaN comes back as the one that the bare name denotes,
and a constant is lost exactly if it denotes another NaN.

That the numeral of a finite double is read as this double is not shown here.  The
reader computes with one rounding too many for that, so it is asked of the constant at
hand.
-/
import BytecodeIR.Proofs.Code.Codec.Canonical
import BytecodeIR.Proofs.Conversion.Operand
import BytecodeIR.Proofs.Decimal.Literal

namespace BytecodeIR

namespace Dump

/-- The double that a constant denotes, if it is used as a real one. -/
inductive Constant.DenotesReal : Constant → Double → Prop
  | integer (i : Int64) : DenotesReal (.integer i) (.ofInt i.toInt)
  | real (x : Double) : DenotesReal (.real x) x
  | text {s : String} {x : Double} (h : Double.ofText? s = some x) : DenotesReal (.text s) x

/-- A constant that denotes a NaN other than the one that the bare name denotes. -/
def Constant.IsOddNaN : Constant → Prop
  | .integer _ => False
  | .real x => x.isNaN = true ∧ x ≠ .nan false
  | .text s => Double.NamesNegativeNaN s

theorem Constant.DenotesReal.isOddNaN_iff {c : Constant} {x : Double} (h : c.DenotesReal x) :
    c.IsOddNaN ↔ x.isNaN = true ∧ x ≠ .nan false := by
  cases h with
  | integer i => exact ⟨False.elim, fun hx => Double.not_isNaN_ofInt _ hx.1⟩
  | real => exact Iff.rfl
  | text h => exact (Double.isNaN_of_ofText? h).symm

end Dump

/-- A double is in canonical form unless it is a NaN with a sign or bits of its own. -/
theorem Double.canonical_eq_self {x : Double} :
    x.canonical = x ↔ ¬ (x.isNaN = true ∧ x ≠ nan false) := by
  by_cases hnan : x.isNaN = true
  · rw [canonical_of_isNaN hnan]
    simp [hnan, eq_comm]
  · rw [canonical_of_not_isNaN hnan]
    simp [hnan]

namespace Conversion

open Code (Node RecoversReal Value doubleDecoder encodeDouble recovers_double_canonical)
open Dump (Constant Operand Slots)
open Json (Recovers)

/-! ### Where a real constant comes from -/

theorem denotesReal_of_realConstant {s : Slots Outcome} {x : Double}
    (h : realConstant s = .ok x) : ∃ c, s.value = some c ∧ c.DenotesReal x := by
  obtain ⟨c, hc, h⟩ := bind_eq_ok.mp h
  refine ⟨c, require_eq_ok.mp hc, ?_⟩
  cases c with
  | integer i =>
      rw [← Except.ok.inj h]
      exact .integer i
  | real y =>
      rw [← Except.ok.inj h]
      exact .real y
  | text t =>
      dsimp only at h
      split at h
      · rename_i y hy
        rw [← Except.ok.inj h]
        exact .text hy
      · cases h

theorem denotesReal_of_node {s : Slots Outcome} {k : Dump.ValueKind} {n : Node Value}
    (h : node s k = .ok n) {x : Double} (hx : x ∈ n.reals) :
    ∃ c, s.value = some c ∧ c.DenotesReal x := by
  cases k with
  | doubleConstant =>
      obtain ⟨y, hy, hn⟩ := bind_eq_ok.mp h
      rw [← Except.ok.inj hn] at hx
      rw [List.mem_singleton.mp hx]
      exact denotesReal_of_realConstant hy
  | floatConstant =>
      obtain ⟨y, hy, hn⟩ := bind_eq_ok.mp h
      rw [← Except.ok.inj hn] at hx
      rw [List.mem_singleton.mp hx]
      exact denotesReal_of_realConstant hy
  | _ =>
      simp only [node, bind_eq_ok] at h
      grind [Node.reals]

/-- **What a real constant holds is what the constant of its operand denotes.** -/
theorem denotesReal_of_convert {o : Operand} {v : Value} (h : o.convert = .ok v) {x : Double}
    (hx : x ∈ v.node.reals) : ∃ c, o.slots.value = some c ∧ c.DenotesReal x := by
  obtain ⟨s⟩ := o
  rw [convert_of] at h
  rcases (value_eq_ok _).mp h with ⟨k, e, -, -, rfl⟩ | ⟨k, n, -, hn, rfl⟩
  · cases hx
  · exact denotesReal_of_node hn hx

/-! ### What becomes of it -/

/-- **A real constant that is saved and read again is the canonical form of what it was, wherever
it stands, and it is what it was exactly if the constant it was made from is no odd NaN.** -/
theorem real_constant_reads_back {o : Operand} {v : Value} (h : o.convert = .ok v) {x : Double}
    (hx : x ∈ v.node.reals) (hfinite : x.isFinite = true → (Json.Number.real x).Readable) :
    (∀ src, Recovers True doubleDecoder src (encodeDouble x) x.canonical) ∧
      ∃ c, o.slots.value = some c ∧
        (doubleDecoder.ofText (encodeDouble x).text = .ok x ↔ ¬ c.IsOddNaN) := by
  have hrecovers : ∀ src, Recovers True doubleDecoder src (encodeDouble x) x.canonical :=
    recovers_double_canonical fun _ => hfinite
  obtain ⟨c, hc, hdenotes⟩ := denotesReal_of_convert h hx
  refine ⟨hrecovers, c, hc, ?_⟩
  have hdepth : (Json.Document.ofJson (encodeDouble x)).depth ≤ Json.nestingLimit := by
    unfold encodeDouble
    split <;> exact Nat.zero_le _
  rw [(hrecovers .text).ofText_text hdepth, Except.ok.injEq, Double.canonical_eq_self,
    hdenotes.isOddNaN_iff]

/-- A double constant that is given as a text. -/
def constantOf (text : String) : Operand :=
  .of { Slots.ofKind "DoubleConstant" "double" with value := some (.text text) }

theorem constantOf_isOddNaN {text : String} {c : Constant}
    (hc : (constantOf text).slots.value = some c) (h : c.IsOddNaN) :
    Double.NamesNegativeNaN text := by
  rw [← Option.some.inj hc] at h
  exact h

/-- A small number and an infinity come back as they were. -/
theorem real_constant_reads_back_small :
    (∃ v x, (constantOf "-.25E-2").convert = .ok v ∧ x ∈ v.node.reals ∧ x.isFinite = true ∧
      doubleDecoder.ofText (encodeDouble x).text = .ok x) ∧
      ∃ v x, (constantOf "-InFiNiTy").convert = .ok v ∧ x ∈ v.node.reals ∧ x.isFinite = false ∧
        doubleDecoder.ofText (encodeDouble x).text = .ok x := by
  constructor
  · have hconvert : (constantOf "-.25E-2").convert =
        .ok (.of (.doubleConstant "double" (.nearest true 25 10000))) := by decide +kernel
    have hmem : Double.nearest true 25 10000 ∈ [Double.nearest true 25 10000] :=
      List.mem_singleton_self _
    obtain ⟨-, c, hc, hiff⟩ :=
      real_constant_reads_back hconvert hmem fun _ => ⟨_, rfl, rfl⟩
    refine ⟨_, _, hconvert, hmem, by decide +kernel, hiff.mpr fun hodd => ?_⟩
    obtain ⟨name, hname, hnan⟩ := constantOf_isOddNaN hc hodd
    cases hname
    cases hnan
  · have hconvert : (constantOf "-InFiNiTy").convert =
        .ok (.of (.doubleConstant "double" (.infinite true))) := by decide +kernel
    have hmem : Double.infinite true ∈ [Double.infinite true] := List.mem_singleton_self _
    obtain ⟨-, c, hc, hiff⟩ :=
      real_constant_reads_back hconvert hmem fun hfinite => by cases hfinite
    refine ⟨_, _, hconvert, hmem, by decide +kernel, hiff.mpr fun hodd => ?_⟩
    obtain ⟨name, hname, hnan⟩ := constantOf_isOddNaN hc hodd
    cases hname
    cases hnan

/-- A NaN that is named after a minus sign is read back as the one without a sign. -/
theorem not_real_constant_reads_back_negativeNaN :
    ¬ ∀ (o : Operand) (v : Value) (x : Double), o.convert = .ok v → x ∈ v.node.reals →
      (x.isFinite = true → (Json.Number.real x).Readable) →
        doubleDecoder.ofText (encodeDouble x).text = .ok x := by
  intro h
  have hconvert : (constantOf "-nan").convert =
      .ok (.of (.doubleConstant "double" (.nan true))) := by decide +kernel
  have hread : doubleDecoder.ofText (encodeDouble (.nan true)).text = .ok (.nan false) := by
    decide +kernel
  have hsame := h _ _ _ hconvert (List.mem_singleton_self _) fun hfinite => by cases hfinite
  rw [hread] at hsame
  exact absurd (Except.ok.inj hsame) (by decide)

end Conversion

end BytecodeIR
