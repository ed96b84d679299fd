/-
The bits of a modifier word.

Clearing the bit of every attribute leaves the bits that belong to none, and this
is shown bit by bit: a bit is left exactly if it was set in the word and is the
bit of no attribute.  So nothing is left of a word exactly if each of its bits is
that of an attribute.
-/
import BytecodeIR.Code.Attribute
import Mathlib.Tactic.ByContra

namespace BytecodeIR.Code.Attribute

/-- Clearing bits leaves those that were set and are not among the cleared ones. -/
theorem getLsbD_clear {table : List (UInt32 × Attribute)} {word : UInt32} {n : Nat} (hn : n < 32) :
    (table.foldl (fun rest e => rest &&& ~~~e.1) word).toBitVec.getLsbD n =
      (word.toBitVec.getLsbD n && table.all fun e => !e.1.toBitVec.getLsbD n) := by
  induction table generalizing word with
  | nil => simp
  | cons e rest ih =>
      rw [List.foldl_cons, ih, List.all_cons, UInt32.toBitVec_and, UInt32.toBitVec_not,
        BitVec.getLsbD_and, BitVec.getLsbD_not]
      simp [hn, Bool.and_assoc]

/-- The bit of an attribute is a single one. -/
theorem getLsbD_of_mem_bits {e : UInt32 × Attribute} (he : e ∈ bits) {n : Nat} (hn : n < 32) :
    e.1.toBitVec.getLsbD n = decide (e.1.toNat = 1 <<< n) := by
  have hall : ∀ e ∈ bits, ∀ n < 32, e.1.toBitVec.getLsbD n = decide (e.1.toNat = 1 <<< n) := by
    decide
  exact hall e he n hn

/-- **No unknown bits are left exactly if every bit of the word is that of an attribute.** -/
theorem unknownBits_eq_zero {word : UInt32} :
    unknownBits word = 0 ↔
      ∀ n < 32, word.toNat.testBit n = true → ∃ e ∈ bits, e.1.toNat = 1 <<< n := by
  have hleft : ∀ n < 32, ((unknownBits word).toBitVec.getLsbD n = true ↔
      word.toNat.testBit n = true ∧ ∀ e ∈ bits, e.1.toNat ≠ 1 <<< n) := by
    intro n hn
    unfold unknownBits
    rw [getLsbD_clear hn, Bool.and_eq_true, List.all_eq_true]
    refine and_congr Iff.rfl (forall₂_congr fun e he => ?_)
    rw [getLsbD_of_mem_bits he hn]
    simp
  constructor
  · intro h n hn hbit
    by_contra hnone
    have hset := (hleft n hn).mpr ⟨hbit, fun e he heq => hnone ⟨e, he, heq⟩⟩
    rw [h] at hset
    simp at hset
  · intro h
    refine UInt32.toBitVec_inj.mp (BitVec.eq_of_getLsbD_eq fun n hn => ?_)
    rw [UInt32.toBitVec_zero, BitVec.getLsbD_zero, ← Bool.not_eq_true, hleft n hn]
    rintro ⟨hbit, hnone⟩
    obtain ⟨e, he, heq⟩ := h n hn hbit
    exact hnone e he heq

end BytecodeIR.Code.Attribute
