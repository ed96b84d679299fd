/-
The dialect decides about assigned phis and about nothing else.

A conversion asks twice which dialect it works in.  The first pass asks when the
right-hand side of an assignment is a phi, to refuse it or to leave it without
sources.  The second pass asks whether to look for sources at all, and what it looks
for are the sources of the same phis.  A phi in any other place is refused before
anything depends on the dialect.

So where no instruction assigns a phi, the first pass takes the same steps in both
dialects, failures included, and the second finds nothing to put in.
-/
import BytecodeIR.Proofs.Conversion.Phi

namespace BytecodeIR.Conversion

open Code (Label)
open Dump (Body Instruction InstructionKind Operand)

section Passes

variable {b : Body} {i : Instruction} (dialect dialect' : Dialect)

/-- What is assigned depends on the dialect only if it is a phi. -/
theorem assigned_eq {here : Label} {right : Operand} (h : ¬ right.IsPhi) :
    assigned dialect here right = right.convert :=
  if_neg fun hphi => h (isPhi_eq_true.mp hphi)

/-- The dialect matters to an instruction only if it assigns a phi. -/
theorem statement_eq_of_dialect (h : ∀ right, ¬ i.AssignsPhi right) :
    statement b i dialect = statement b i dialect' := by
  refine bind_congr fun here => ?_
  cases hkind : InstructionKind.ofName? i.kind with
  | none => rfl
  | some kind =>
      cases kind with
      | assign =>
          have haction : action b i dialect here .assign = action b i dialect' here .assign := by
            refine bind_congr fun left => bind_congr_ok fun right hright => ?_
            have hno : ¬ right.IsPhi := fun hphi => h right ⟨hkind, require_eq_ok.mp hright, hphi⟩
            rw [assigned_eq _ hno, assigned_eq _ hno]
          exact congrArg (· >>= _) haction
      | _ => rfl

/-- The second pass finds nothing where no instruction assigns a phi. -/
theorem phiArgs_eq_nil (h : ∀ i ∈ b.instructions, ∀ right, ¬ i.AssignsPhi right)
    (placed : Placement) : phiArgs b dialect placed = .ok [] := by
  have hnone : assignedPhis b = [] := by
    refine List.filterMap_eq_nil_iff.mpr fun i hi => ?_
    cases hsources : phiSources? i with
    | none => rfl
    | some sources =>
        obtain ⟨hkind, right, hright, hphi, -⟩ := phiSources?_eq_some.mp hsources
        exact absurd ⟨hkind, hright, hphi⟩ (h i hi right)
  unfold phiArgs
  split
  · show (assignedPhis b).mapM _ = _
    rw [hnone]
    rfl
  · rfl

end Passes

/-- **Without assigned phis a method is converted alike in both dialects**: the same code comes out,
or it fails in the same way. -/
theorem convert_eq_of_no_phi {m : Dump.Method}
    (h : ∀ b, m.body = some b → ∀ i ∈ b.instructions, ∀ right, ¬ i.AssignsPhi right)
    (className : String) :
    m.convert .singleAssignment className = m.convert .plain className := by
  refine bind_congr fun declared => ?_
  cases hbody : m.body with
  | none => rfl
  | some b =>
      have hno := h b hbody
      refine convert_congr_body rfl rfl (fun id _ => ?_) (fun placed => ?_) _
      · refine bind_congr_ok fun i hi => ?_
        have hmem := (Body.mem_of_instruction? (instruction_eq_ok.mp hi)).1
        exact statement_eq_of_dialect _ _ (hno i hmem)
      · rw [phiArgs_eq_nil _ hno, phiArgs_eq_nil _ hno]

/-- A method that copies what its only phi gives, the phi standing inside a cast. -/
def castPhi : Dump.Method :=
  let x : Operand := .of { Dump.Slots.ofKind "Local" "int" with name := some "x" }
  let phi : Operand := .of { Dump.Slots.ofKind "SPhiExpr" "int" with phiSources := [⟨x, ⟨7⟩⟩] }
  ⟨"narrow", [], "void", 9, [], some ⟨[{ Instruction.ofKind ⟨4⟩ "JAssignStmt" with
    left := some x
    right := some (.of { Dump.Slots.ofKind "JCastExpr" "int" with
      castType := some "int", single := some phi }) }], [⟨[⟨4⟩], [0], []⟩]⟩⟩

/-- A phi that is not assigned is refused in both dialects. -/
theorem convert_eq_of_no_phi_castPhi :
    (∀ b, castPhi.body = some b → ∀ i ∈ b.instructions, ∀ right, ¬ i.AssignsPhi right) ∧
      castPhi.convert .singleAssignment "Main" = .error .misplacedPhi ∧
      castPhi.convert .plain "Main" = .error .misplacedPhi := by
  have hno : ∀ b, castPhi.body = some b →
      ∀ i ∈ b.instructions, ∀ right, ¬ i.AssignsPhi right := by
    rintro b hb i hi right ⟨-, hright, hphi⟩
    cases hb
    obtain rfl := List.mem_singleton.mp hi
    cases hright
    exact absurd (isPhi_eq_true.mpr hphi) (by decide)
  have hplain : castPhi.convert .plain "Main" = .error .misplacedPhi := rfl
  exact ⟨hno, (convert_eq_of_no_phi hno "Main").trans hplain, hplain⟩

end BytecodeIR.Conversion
