/-
Real constants come from real constants.

The conversion makes a double or float constant out of a record of that kind and out
of nothing else, and every value that it puts into a statement, a phi's sources
included, is what became of an operand of an instruction.  So a program whose operands
have no real constants is converted to classes that have none, and nothing stands in
the way of reading their text back.
-/
import BytecodeIR.Proofs.Conversion.Program
import BytecodeIR.Proofs.Conversion.Values

namespace BytecodeIR

/-! ### Programs without real constants -/

namespace Dump

variable {α β : Type}

/-- Whether a kind is that of double or float constants. -/
def ValueKind.isReal : ValueKind → Bool
  | .doubleConstant => true
  | .floatConstant => true
  | _ => false

/-- Whether a record is a double or float constant. -/
def Slots.isReal (s : Slots α) : Bool :=
  (ValueKind.ofName? (normalizeKind s.kind)).any ValueKind.isReal

@[simp] theorem Slots.isReal_map (f : α → β) (s : Slots α) : (s.map f).isReal = s.isReal := rfl

/-- Whether no record in an operand is a double or float constant. -/
def Operand.isRealFree (o : Operand) : Bool := o.fold fun s => !s.isReal && s.operands.all id

theorem Operand.isRealFree_of {s : Slots Operand} : (Operand.of s).isRealFree = true ↔
    s.isReal = false ∧ ∀ o ∈ s.operands, o.isRealFree = true := by
  unfold isRealFree
  rw [fold_of]
  simp

/-- Whether no operand in a program has a double or float constant in it. -/
def Program.isRealFree (p : Program) : Bool :=
  (p.classes.flatMap Class.operands).all Operand.isRealFree

end Dump

namespace Conversion

open Code (Action Node Statement Value)
open Dump (Body Instruction Operand Slots)

/-! ### One record -/

section Rule

variable {s : Slots Outcome}

/-- A node is no real constant unless the record is. -/
theorem reals_of_node {k : Dump.ValueKind}
    (hk : Dump.ValueKind.ofName? (Dump.normalizeKind s.kind) = some k) (hs : s.isReal = false)
    {n : Node Value} (h : node s k = .ok n) : n.reals = [] := by
  unfold Slots.isReal at hs
  rw [hk, Option.any_some] at hs
  cases k with
  | doubleConstant => cases hs
  | floatConstant => cases hs
  | _ =>
      simp only [node, bind_eq_ok] at h
      grind [Node.reals]

/-- The value of a record that is no real constant has those of the operands inside. -/
theorem reals_of_value (hs : s.isReal = false) {v : Value} (h : value s = .ok v)
    (hoperands : ∀ w, .ok w ∈ s.operands → w.reals = []) : v.reals = [] := by
  rcases (value_eq_ok s).mp h with ⟨k, e, -, he, rfl⟩ | ⟨k, n, hk, hn, rfl⟩
  · rw [Value.ofExpr, Value.reals_of, List.append_eq_nil_iff, List.flatMap_eq_nil_iff]
    exact ⟨rfl, fun w hw => hoperands w (mem_of_expr he hw)⟩
  · rw [Value.reals_of, List.append_eq_nil_iff, List.flatMap_eq_nil_iff]
    exact ⟨reals_of_node hk hs hn, fun w hw => hoperands w (mem_of_node hn hw)⟩

end Rule

/-! ### Operands and instructions -/

/-- **An operand without real constants is converted to a value without any.** -/
theorem reals_of_convert {o : Operand} (ho : o.isRealFree = true) {v : Value}
    (h : o.convert = .ok v) : v.reals = [] := by
  induction o using Operand.induct generalizing v with
  | step s ih =>
      obtain ⟨hs, hinside⟩ := Operand.isRealFree_of.mp ho
      rw [convert_of] at h
      rw [← Slots.isReal_map Operand.convert] at hs
      refine reals_of_value hs h fun w hw => ?_
      rw [Slots.operands_map, List.mem_map] at hw
      obtain ⟨o, ho, hw⟩ := hw
      exact ih o ho (hinside o ho) hw

/-- A value that is taken from an instruction has real constants only if an operand of it has. -/
theorem reals_of_taken {i : Instruction} (hi : ∀ o ∈ i.operands, o.isRealFree = true) {v : Value}
    (h : Taken i v) : v.reals = [] := by
  cases h with
  | operand ho h => exact reals_of_convert (hi _ ho) h
  | @inner o inside ho hinside h =>
      obtain ⟨s⟩ := o
      exact reals_of_convert ((Operand.isRealFree_of.mp (hi _ ho)).2 inside hinside) h

/-- A phi that is assigned has no real constants but in its sources. -/
theorem reals_of_unchecked {s : Statement} (h : ∀ v ∈ s.action.unchecked, v.reals = []) :
    s.reals = [] := by
  refine List.flatMap_eq_nil_iff.mpr fun v hv => ?_
  rcases Action.mem_operands hv with hv | ⟨left, ty, args, haction, rfl⟩
  · exact h v hv
  · rw [Value.ofExpr, Value.reals_of, List.append_eq_nil_iff, List.flatMap_eq_nil_iff]
    refine ⟨rfl, fun w hw => h w ?_⟩
    rw [haction]
    exact List.mem_cons_of_mem _ hw

/-! ### Methods and programs -/

/-- **A method without real constants is converted to one without any.** -/
theorem reals_of_method {m : Dump.Method} (hm : ∀ o ∈ m.operands, o.isRealFree = true)
    {dialect : Dialect} {className : String} {out : Code.Method}
    (h : m.convert dialect className = .ok out) : out.reals = [] := by
  refine List.flatMap_eq_nil_iff.mpr fun block hblock => List.flatMap_eq_nil_iff.mpr fun s hs => ?_
  rcases converted_of_convert h with hnil | ⟨b, base, drafts, phis, hbody, hconverted⟩
  · rw [hnil] at hblock
    cases hblock
  · refine reals_of_unchecked fun v hv => ?_
    have hs : s ∈ out.statements := Code.Method.mem_statements.mpr ⟨block, hblock, hs⟩
    obtain ⟨i, hi, htaken⟩ := hconverted.taken s hs v hv
    refine reals_of_taken (fun o ho => hm o ?_) htaken
    have ho : o ∈ b.operands := List.mem_flatMap_of_mem hi ho
    simpa [Dump.Method.operands, hbody] using ho

theorem reals_of_class {c : Dump.Class} (hc : ∀ o ∈ c.operands, o.isRealFree = true)
    {dialect : Dialect} {out : Code.Class} (h : c.convert dialect = .ok out) : out.reals = [] := by
  obtain ⟨superClass, -, h⟩ := bind_eq_ok.mp h
  obtain ⟨declared, -, h⟩ := bind_eq_ok.mp h
  obtain ⟨fields, -, h⟩ := bind_eq_ok.mp h
  obtain ⟨methods, hmethods, h⟩ := bind_eq_ok.mp h
  obtain rfl := Except.ok.inj h
  refine List.flatMap_eq_nil_iff.mpr fun out hout => ?_
  obtain ⟨m, hm, hconvert⟩ := forall₂_mem_left (mapM_eq_ok.mp hmethods) hout
  exact reals_of_method (fun o ho => hc o (List.mem_flatMap_of_mem hm ho)) hconvert

/-- **A program without real constants is converted to classes without any.** -/
theorem reals_of_program {p : Dump.Program} (hp : p.isRealFree = true) {dialect : Dialect}
    {classes : Code.ClassMap} (h : p.convert dialect = .ok classes) : classes.reals = [] := by
  refine List.flatMap_eq_nil_iff.mpr fun out hmem => ?_
  obtain ⟨e, he, rfl⟩ := List.mem_map.mp hmem
  obtain ⟨c, hlast, hconvert⟩ := (Dump.Program.convert_eq_ok.mp h).get?_eq_some.mp
    (SortedMap.get?_eq_some.mpr he)
  have hc := (List.mem_filter.mp (Dump.Program.mem_of_last? hlast).1).1
  refine reals_of_class (fun o ho => ?_) hconvert
  exact List.all_eq_true.mp hp o (List.mem_flatMap_of_mem hc ho)

end Conversion

end BytecodeIR
