/-
Which texts denote a NaN.

A decimal is rounded to a word that is at most that of infinity, however large it is,
so no decimal denotes a NaN.  What is left are the names.  The name of a NaN may be
written in any letter case and with either sign, and its sign is kept: with a minus it
denotes another double than without one.  The name is never taken for a decimal first,
since it begins with neither a digit nor a point.
-/
import BytecodeIR.Decimal.Literal
import Mathlib.Tactic.ByContra

namespace BytecodeIR

theorem BinaryFormat.nearest_le (f : BinaryFormat) (num den : Nat) :
    f.nearest num den ≤ f.infinity := by
  unfold nearest
  split
  · exact Nat.zero_le _
  · exact Nat.min_le_right _ _

namespace Double

/-- A word keeps its magnitude when it is given a sign. -/
theorem word_ofWord {negative : Bool} {w : Nat} (hw : w < signBit) :
    (ofWord negative w).word = w := by
  have hbits : (ofWord negative w).bits.toNat = w + if negative then signBit else 0 := by
    refine UInt64.toNat_ofNat_of_lt' ?_
    have hsize : UInt64.size = signBit + signBit := by decide
    split <;> omega
  rw [word, hbits]
  split
  · rw [Nat.add_mod_right, Nat.mod_eq_of_lt hw]
  · rw [Nat.add_zero, Nat.mod_eq_of_lt hw]

theorem not_isNaN_ofWord {negative : Bool} {w : Nat} (hw : w ≤ binary64.infinity) :
    ¬ (ofWord negative w).isNaN = true := by
  have hlt : binary64.infinity < signBit := by decide
  rw [isNaN, word_ofWord (Nat.lt_of_le_of_lt hw hlt)]
  simpa using hw

theorem not_isNaN_nearest (negative : Bool) (num den : Nat) :
    ¬ (nearest negative num den).isNaN = true :=
  not_isNaN_ofWord (binary64.nearest_le num den)

theorem not_isNaN_ofInt (i : Int) : ¬ (ofInt i).isNaN = true := not_isNaN_nearest _ _ _

/-- **No decimal denotes a NaN.** -/
theorem not_isNaN_toDouble (l : Literal) (negative : Bool) :
    ¬ (l.toDouble negative).isNaN = true := by
  unfold Literal.toDouble
  dsimp only
  split
  · exact not_isNaN_ofWord (Nat.zero_le _)
  · split
    · exact not_isNaN_ofWord (Nat.le_refl _)
    · exact not_isNaN_nearest _ _ _

end Double

/-! ### Names -/

/-- The name of a NaN in any letter case. -/
def NamesNaN (name : List Char) : Prop := name.map Char.toLower = "nan".toList

theorem toLower_of_isDigit {c : Char} (h : c.isDigit = true) : c.toLower = c := by
  refine dif_neg fun hupper => ?_
  have hle : c.val ≤ '9'.val := by
    simp only [Char.isDigit, Bool.and_eq_true, decide_eq_true_eq] at h
    exact h.2
  exact absurd (UInt32.le_trans hupper.1 hle) (by decide)

/-- The name of a NaN is no decimal. -/
theorem NamesNaN.ofChars?_eq_none {name : List Char} (h : NamesNaN name) :
    Literal.ofChars? name = none := by
  cases name with
  | nil => cases h
  | cons c rest =>
      have hc : c.toLower = 'n' := (List.cons.inj h).1
      have hdigit : c.isDigit = false := by
        rw [Bool.eq_false_iff]
        intro hdigit
        rw [toLower_of_isDigit hdigit] at hc
        rw [hc] at hdigit
        cases hdigit
      have hpoint : c ≠ '.' := by
        rintro rfl
        cases hc
      unfold Literal.ofChars?
      simp [hdigit, hpoint]

namespace Double

variable {s : String} {x : Double}

/-- A text that names a NaN after a minus sign. -/
def NamesNegativeNaN (s : String) : Prop := ∃ name, s.toList = '-' :: name ∧ NamesNaN name

/-- What a text denotes after its sign has been taken off. -/
def ofBody? (negative : Bool) (body : List Char) : Option Double :=
  match Literal.ofChars? body with
  | some l => some (l.toDouble negative)
  | none =>
    match String.ofList (body.map Char.toLower) with
    | "inf" => some (.infinite negative)
    | "infinity" => some (.infinite negative)
    | "nan" => some (.nan negative)
    | _ => none

/-- A NaN is denoted by its name only. -/
theorem ofBody?_isNaN {negative : Bool} {body : List Char} (h : ofBody? negative body = some x)
    (hnan : x.isNaN = true) : NamesNaN body ∧ x = nan negative := by
  unfold ofBody? at h
  split at h
  · rw [← Option.some.inj h] at hnan
    exact absurd hnan (not_isNaN_toDouble _ _)
  · split at h
    · rw [← Option.some.inj h] at hnan
      exact absurd hnan (not_isNaN_ofWord (Nat.le_refl _))
    · rw [← Option.some.inj h] at hnan
      exact absurd hnan (not_isNaN_ofWord (Nat.le_refl _))
    · rename_i hname
      exact ⟨String.ofList_injective hname, (Option.some.inj h).symm⟩
    · cases h

theorem ofBody?_of_namesNaN {negative : Bool} {body : List Char} (h : NamesNaN body) :
    ofBody? negative body = some (nan negative) := by
  unfold ofBody?
  rw [h.ofChars?_eq_none, h]
  rfl

/-- Whether a text begins with a minus sign, and what follows a sign. -/
def splitSign : List Char → Bool × List Char
  | '-' :: rest => (true, rest)
  | '+' :: rest => (false, rest)
  | rest => (false, rest)

theorem eq_cons_of_splitSign {cs : List Char} (h : (splitSign cs).1 = true) :
    cs = '-' :: (splitSign cs).2 := by
  unfold splitSign at h ⊢
  split at h
  · rfl
  · cases h
  · cases h

theorem ofText?_eq (s : String) :
    ofText? s = ofBody? (splitSign s.toList).1 (splitSign s.toList).2 := rfl

/-- **A text denotes a NaN other than the one without a sign exactly if it names it after a minus
sign.** -/
theorem isNaN_of_ofText? (h : ofText? s = some x) :
    x.isNaN = true ∧ x ≠ nan false ↔ NamesNegativeNaN s := by
  rw [ofText?_eq] at h
  constructor
  · rintro ⟨hnan, hne⟩
    obtain ⟨hname, rfl⟩ := ofBody?_isNaN h hnan
    have hminus : (splitSign s.toList).1 = true := by
      by_contra hplus
      rw [Bool.not_eq_true] at hplus
      exact hne (congrArg nan hplus)
    exact ⟨_, eq_cons_of_splitSign hminus, hname⟩
  · rintro ⟨name, hs, hname⟩
    rw [hs] at h
    obtain rfl : nan true = x := Option.some.inj ((ofBody?_of_namesNaN hname).symm.trans h)
    decide

end Double

end BytecodeIR
