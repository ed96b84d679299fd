/-
A converted method buries no phi.

The conversion of an operand refuses a phi wherever it meets one, so no phi stands in
what an operand is converted to, at any depth.  What is left are the phis that
assignments are made with, and those the check of a method does reach.  So the sources
of all phis of a converted method come from its own blocks, although its check does
not look for all of them.
-/
import BytecodeIR.Proofs.Conversion.Consistency
import BytecodeIR.Proofs.Conversion.Values

namespace BytecodeIR.Conversion

open Code (PhiArg Statement Value)
open Dump (Body Operand)

/-! ### Operands -/

/-- **No phi stands in what an operand is converted to.** -/
theorem sourceBlocks_of_convert {o : Operand} {v : Value} (h : o.convert = .ok v) :
    v.sourceBlocks = [] := by
  refine List.eq_nil_iff_forall_not_mem.mpr fun index hindex => ?_
  obtain ⟨a, ⟨ty, args, hphi, -⟩, -⟩ := Value.mem_sourceBlocks.mp hindex
  obtain ⟨inside, hinside⟩ := exists_convert_of_standsIn h hphi
  exact absurd (convert_ne_phi hinside) (by simp [Code.Expr.isPhi])

/-! ### Methods -/

/-- **A converted method buries no phi.** -/
theorem Converted.buriedBlocks {b : Body} {dialect : Dialect} {base out : Code.Method}
    {drafts : List (List Statement)} {phis : List (Code.Label × List (PhiArg Value))}
    (h : Converted b dialect base out drafts phis) : ∀ s ∈ out.statements, s.buriedBlocks = [] := by
  intro s hs
  refine List.flatMap_eq_nil_iff.mpr fun v hv => ?_
  obtain ⟨i, -, htaken⟩ := h.taken s hs v hv
  obtain ⟨o, ho⟩ := htaken.exists_convert
  exact sourceBlocks_of_convert ho

/-- **All phi sources of a converted method come from its blocks, wherever they stand.** -/
theorem hasSource_lt_of_convert {m : Dump.Method} {dialect : Dialect} {className : String}
    {out : Code.Method} (h : m.convert dialect className = .ok out) :
    ∀ s ∈ out.statements, ∀ a, s.HasSource a → a.block.toNat < out.blocks.length := by
  rcases converted_of_convert h with hnil | ⟨b, base, drafts, phis, -, hconverted⟩
  · intro s hs
    rw [Code.Method.statements, hnil] at hs
    cases hs
  · intro s hs
    refine Statement.hasSource_lt_iff.mpr ⟨hconverted.arranged.sources s hs, ?_⟩
    rw [hconverted.buriedBlocks s hs]
    simp

end BytecodeIR.Conversion
