/-
Numbers are read back from the text that they are written as.

A reader of numbers does not know where the number ends, so what it makes of a
text depends on what follows it.  `ofChars?_append` says that it depends on
nothing else: a text which cannot go on as a number may be put behind any other
without changing what is read from it.  So it is enough to look at numbers that
stand alone.

Integers of 64 bits are always read back.  Whether a double is depends on how
precisely it is computed from its decimal, and this is not settled here:
`Number.Readable` is what the number's own text has to satisfy.
-/
import BytecodeIR.Json.Printer
import BytecodeIR.Json.Numeral
import Mathlib.Data.List.TakeDrop

namespace BytecodeIR.Json

namespace Numeral

/-- A text does not go on as a number: it is empty, or its first character has no place in one. -/
def Stops (rest : List Char) : Prop :=
  ∀ c ∈ rest.head?, c.isDigit = false ∧ c ∉ ['.', 'e', 'E', '+', '-']

theorem stops_nil : Stops [] := by
  intro c hc
  cases hc

theorem stops_cons {c : Char} {rest : List Char} :
    Stops (c :: rest) ↔ c.isDigit = false ∧ c ∉ ['.', 'e', 'E', '+', '-'] := by
  simp [Stops]

/-! ### What follows a number does not matter

Each part of a number is read as far as it goes: digits up to the first character that
is none, then a point if one stands there, then a mark.  A text that `Stops` offers none
of these, so every part ends where it would have ended without the text.  The parts are
taken one after another, and the reader of the whole number is put into a form that
shows it as a chain of them, `ofChars?_eq`, for the law to pass along.
-/

section Append

variable {cs rest : List Char}

theorem takeWhile_append_stops (h : Stops rest) :
    (cs ++ rest).takeWhile Char.isDigit = cs.takeWhile Char.isDigit := by
  induction cs with
  | nil =>
      cases rest with
      | nil => rfl
      | cons c more =>
          -- Behind the last digit stands a character that is none.
          rw [List.nil_append, List.takeWhile_cons_of_neg (by simp [(stops_cons.mp h).1])]
          rfl
  | cons c more ih =>
      rw [List.cons_append, List.takeWhile_cons, List.takeWhile_cons, ih]

theorem dropWhile_append_stops (h : Stops rest) :
    (cs ++ rest).dropWhile Char.isDigit = cs.dropWhile Char.isDigit ++ rest := by
  -- The digits are the same, so what is left is what stood behind them.
  have hsplit := List.takeWhile_append_dropWhile (p := Char.isDigit) (l := cs ++ rest)
  rw [takeWhile_append_stops h] at hsplit
  refine List.append_cancel_left (hsplit.trans ?_)
  rw [← List.append_assoc, List.takeWhile_append_dropWhile]

theorem digits?_eq (cs : List Char) :
    digits? cs = if cs.takeWhile Char.isDigit = [] then none
      else some (cs.takeWhile Char.isDigit, cs.dropWhile Char.isDigit) := by
  unfold digits?
  rw [List.span_eq_takeWhile_dropWhile]
  cases cs.takeWhile Char.isDigit with
  | nil => rfl
  | cons d ds => rfl

theorem digits?_append (h : Stops rest) :
    digits? (cs ++ rest) = (digits? cs).map fun p => (p.1, p.2 ++ rest) := by
  rw [digits?_eq, digits?_eq, takeWhile_append_stops h, dropWhile_append_stops h]
  split
  · rfl
  · rfl

/-- Whether digits begin with a zero that should not be there. -/
def leadingZero : List Char → Bool
  | '0' :: _ :: _ => true
  | _ => false

theorem whole?_eq (cs : List Char) :
    whole? cs = (digits? cs).bind fun p => if leadingZero p.1 then none else some p := by
  unfold whole?
  split
  · rename_i hdigits
    rw [hdigits]
    rfl
  · rename_i hzero
    cases hdigits : digits? cs with
    | none => rfl
    | some p =>
        obtain ⟨ds, after⟩ := p
        -- Digits with such a zero are the case before.
        have hno : leadingZero ds = false := by
          unfold leadingZero
          split
          · exact absurd hdigits (hzero _ _ _)
          · rfl
        simp [hno]

theorem whole?_append (h : Stops rest) :
    whole? (cs ++ rest) = (whole? cs).map fun p => (p.1, p.2 ++ rest) := by
  rw [whole?_eq, whole?_eq, digits?_append h]
  cases digits? cs with
  | none => rfl
  | some p =>
      simp only [Option.map_some, Option.bind_some]
      by_cases hzero : leadingZero p.1 = true
      · rw [if_pos hzero, if_pos hzero]
        rfl
      · rw [if_neg hzero, if_neg hzero]
        rfl

theorem fraction?_cons (c : Char) (cs : List Char) :
    fraction? (c :: cs) = if c = '.' then digits? cs else some ([], c :: cs) := by
  by_cases hpoint : c = '.'
  · subst hpoint
    rfl
  · rw [if_neg hpoint]
    unfold fraction?
    split
    · rename_i heq
      exact absurd (List.cons.inj heq).1 hpoint
    · rfl

theorem fraction?_append (h : Stops rest) :
    fraction? (cs ++ rest) = (fraction? cs).map fun p => (p.1, p.2 ++ rest) := by
  cases cs with
  | nil =>
      cases rest with
      | nil => rfl
      | cons c more =>
          have hpoint : c ≠ '.' := by
            rintro rfl
            exact (stops_cons.mp h).2 (by decide)
          rw [List.nil_append, fraction?_cons, if_neg hpoint]
          rfl
  | cons c more =>
      rw [List.cons_append, fraction?_cons, fraction?_cons]
      by_cases hpoint : c = '.'
      · rw [if_pos hpoint, if_pos hpoint, digits?_append h]
      · rw [if_neg hpoint, if_neg hpoint]
        rfl

/-- A sign at the start of a text, of which some count as negative, and what follows it. -/
def signed (plus : Bool) : List Char → Bool × List Char
  | [] => (false, [])
  | c :: cs =>
    if c = '-' then (true, cs) else if plus ∧ c = '+' then (false, cs) else (false, c :: cs)

theorem signed_append {plus : Bool} (h : Stops rest) :
    signed plus (cs ++ rest) = ((signed plus cs).1, (signed plus cs).2 ++ rest) := by
  cases cs with
  | nil =>
      cases rest with
      | nil => rfl
      | cons c more =>
          have hminus : c ≠ '-' := by
            rintro rfl
            exact (stops_cons.mp h).2 (by decide)
          have hplus : c ≠ '+' := by
            rintro rfl
            exact (stops_cons.mp h).2 (by decide)
          simp [signed, hminus, hplus]
  | cons c more =>
      unfold signed
      by_cases hminus : c = '-'
      · simp [hminus]
      · by_cases hplus : plus ∧ c = '+'
        · simp [hplus]
        · simp [hminus, hplus]

theorem exponent?_cons (c : Char) (cs : List Char) :
    exponent? (c :: cs) = if c = 'e' ∨ c = 'E' then
      (digits? (signed true cs).2).map fun p => (some ((signed true cs).1, p.1), p.2)
      else some (none, c :: cs) := by
  unfold exponent?
  refine if_congr Iff.rfl ?_ rfl
  cases cs with
  | nil => rfl
  | cons d more =>
      by_cases hminus : d = '-'
      · subst hminus
        rfl
      · by_cases hplus : d = '+'
        · subst hplus
          rfl
        · simp only [signed, hminus, hplus, if_false, and_false]
          split
          · rename_i heq
            exact absurd (List.cons.inj heq).1 hminus
          · rename_i heq
            exact absurd (List.cons.inj heq).1 hplus
          · rfl

theorem exponent?_append (h : Stops rest) :
    exponent? (cs ++ rest) = (exponent? cs).map fun p => (p.1, p.2 ++ rest) := by
  cases cs with
  | nil =>
      cases rest with
      | nil => rfl
      | cons c more =>
          have hmark : ¬ (c = 'e' ∨ c = 'E') := by
            rintro (rfl | rfl)
            · exact (stops_cons.mp h).2 (by decide)
            · exact (stops_cons.mp h).2 (by decide)
          rw [List.nil_append, exponent?_cons, if_neg hmark]
          rfl
  | cons c more =>
      rw [List.cons_append, exponent?_cons, exponent?_cons]
      by_cases hmark : c = 'e' ∨ c = 'E'
      · rw [if_pos hmark, if_pos hmark, signed_append h, digits?_append h]
        simp [Function.comp_def]
      · rw [if_neg hmark, if_neg hmark]
        rfl

theorem ofChars?_eq (cs : List Char) :
    ofChars? cs = (whole? (signed false cs).2).bind fun w => (fraction? w.2).bind fun f =>
      (exponent? f.2).map fun e => (⟨(signed false cs).1, w.1, f.1, e.1⟩, e.2) := by
  simp only [Option.map_eq_bind]
  unfold ofChars?
  cases cs with
  | nil => rfl
  | cons c more =>
      by_cases hminus : c = '-'
      · subst hminus
        rfl
      · simp only [signed, hminus, if_false, Bool.false_eq_true, false_and]
        split
        · rename_i heq
          exact absurd (List.cons.inj heq).1 hminus
        · rfl

/-- **What is read of a number does not depend on a text that cannot go on as one.** -/
theorem ofChars?_append (h : Stops rest) :
    ofChars? (cs ++ rest) = (ofChars? cs).map fun p => (p.1, p.2 ++ rest) := by
  rw [ofChars?_eq, ofChars?_eq, signed_append h, whole?_append h]
  cases whole? (signed false cs).2 with
  | none => rfl
  | some w =>
      simp only [Option.map_some, Option.bind_some, fraction?_append h]
      cases fraction? w.2 with
      | none => rfl
      | some f =>
          simp only [Option.map_some, Option.bind_some, exponent?_append h]
          cases exponent? f.2 with
          | none => rfl
          | some e => rfl

end Append

/-! ### What a number leaves

The other direction: what was read of a text stands in front of what is left of it.
Nothing is dropped on the way, so a text without space that is read as a number with
nothing behind it is the numeral as a whole.  For a number with neither point nor mark
it is told which characters stood there, since this is how a number that is no integer
is kept apart from those that are.
-/

section Rest

variable {cs rest : List Char} {n : Numeral}

theorem eq_append_of_digits? {ds : List Char} (h : digits? cs = some (ds, rest)) :
    cs = ds ++ rest ∧ ds ≠ [] ∧ ∀ c ∈ ds, c.isDigit = true := by
  rw [digits?_eq] at h
  split at h
  · cases h
  · rename_i hne
    cases h
    exact ⟨List.takeWhile_append_dropWhile.symm, hne, List.all_eq_true.mp List.all_takeWhile⟩

theorem eq_append_of_fraction? {ds : List Char} (h : fraction? cs = some (ds, rest)) :
    cs = rest ∧ ds = [] ∨ cs = '.' :: (ds ++ rest) ∧ ds ≠ [] := by
  cases cs with
  | nil =>
      cases h
      exact .inl ⟨rfl, rfl⟩
  | cons c more =>
      rw [fraction?_cons] at h
      split at h
      · rename_i hpoint
        obtain ⟨heq, hne, -⟩ := eq_append_of_digits? h
        exact .inr ⟨by rw [hpoint, heq], hne⟩
      · cases h
        exact .inl ⟨rfl, rfl⟩

theorem eq_append_of_signed (plus : Bool) (cs : List Char) :
    ∃ mark, cs = mark ++ (signed plus cs).2 ∧ ∀ c ∈ mark, c = '-' ∨ plus = true ∧ c = '+' := by
  cases cs with
  | nil => exact ⟨[], rfl, by simp⟩
  | cons c more =>
      unfold signed
      by_cases hminus : c = '-'
      · exact ⟨['-'], by simp [hminus], by simp⟩
      · by_cases hplus : plus ∧ c = '+'
        · exact ⟨['+'], by simp [hplus], by simp [hplus]⟩
        · exact ⟨[], by simp [hminus, hplus], by simp⟩

theorem suffix_of_exponent? {e : Option (Bool × List Char)} (h : exponent? cs = some (e, rest)) :
    rest <:+ cs ∧ (e = none → cs = rest) := by
  cases cs with
  | nil =>
      cases h
      exact ⟨List.suffix_rfl, fun _ => rfl⟩
  | cons c more =>
      rw [exponent?_cons] at h
      split at h
      · obtain ⟨⟨ds, after⟩, hdigits, hsome⟩ := Option.map_eq_some_iff.mp h
        cases hsome
        obtain ⟨mark, hmark, -⟩ := eq_append_of_signed true more
        obtain ⟨heq, -, -⟩ := eq_append_of_digits? hdigits
        refine ⟨⟨c :: (mark ++ ds), ?_⟩, by simp⟩
        rw [List.cons_append, List.append_assoc, ← heq, ← hmark]
      · cases h
        exact ⟨List.suffix_rfl, fun _ => rfl⟩

/-- **What follows a number is a part of the text; of a number without point and mark, only the
sign and digits stand before it.** -/
theorem suffix_of_ofChars? (h : ofChars? cs = some (n, rest)) :
    rest <:+ cs ∧ (n.fraction = [] → n.exponent = none →
      ∃ own, cs = own ++ rest ∧ ∀ c ∈ own, c = '-' ∨ c.isDigit = true) := by
  rw [ofChars?_eq] at h
  obtain ⟨⟨whole, afterWhole⟩, hwhole, h⟩ := Option.bind_eq_some_iff.mp h
  obtain ⟨⟨fraction, afterFraction⟩, hfraction, h⟩ := Option.bind_eq_some_iff.mp h
  obtain ⟨⟨exponent, afterExponent⟩, hexponent, h⟩ := Option.map_eq_some_iff.mp h
  cases h
  rw [whole?_eq] at hwhole
  obtain ⟨⟨ds, after⟩, hdigits, hwhole⟩ := Option.bind_eq_some_iff.mp hwhole
  obtain ⟨heq, -, hds⟩ := eq_append_of_digits? hdigits
  obtain ⟨mark, hmark, hsign⟩ := eq_append_of_signed false cs
  obtain ⟨hsuffix, hnone⟩ := suffix_of_exponent? hexponent
  split at hwhole
  · cases hwhole
  cases hwhole
  -- Each part stands in front of the text that the next part is read from.
  have hcs : cs = (mark ++ whole) ++ afterWhole := by rw [List.append_assoc, ← heq, ← hmark]
  have hpart := eq_append_of_fraction? hfraction
  constructor
  · refine hsuffix.trans (List.IsSuffix.trans ?_ ⟨mark ++ whole, hcs.symm⟩)
    rcases hpart with ⟨hsame, -⟩ | ⟨hsame, -⟩
    · exact hsame ▸ List.suffix_rfl
    · exact ⟨'.' :: fraction, hsame.symm⟩
  · intro hempty hmarkless
    -- With no fraction and no exponent nothing was taken behind the whole part.
    dsimp only at hempty hmarkless
    refine ⟨mark ++ whole, ?_, fun c hc => ?_⟩
    · rcases hpart with ⟨hsame, -⟩ | ⟨-, hne⟩
      · rw [← hnone hmarkless, ← hsame]
        exact hcs
      · exact absurd hempty hne
    · rcases List.mem_append.mp hc with hc | hc
      · exact .inl ((hsign c hc).resolve_right (by simp))
      · exact .inr (hds c hc)

/-- A number is read as an integer only if it has neither point nor mark. -/
theorem value?_integer {i : Int} (h : n.value? = some (.integer i)) :
    n.fraction = [] ∧ n.exponent = none := by
  unfold value? at h
  dsimp only at h
  split at h
  · rename_i hplain
    exact ⟨List.isEmpty_iff.mp hplain.2.1, Option.isNone_iff_eq_none.mp hplain.2.2⟩
  · split at h
    · simp at h
    · split at h
      · simp at h
      · split at h
        · cases h
        · cases h

end Rest

/-! ### Integers

An integer is written by its digits, and three things could go wrong when they are read.
A zero in front would be refused, the digits could be counted to another number, and the
count could leave 64 bits.  A number above zero has no zero in front; counting takes up
the digits in the way in which they were made; and the bound on the number bounds the
count at each digit, since the count only grows.
-/

theorem digits?_toDigits {n : Nat} :
    digits? (Nat.toDigits 10 n) = some (Nat.toDigits 10 n, []) := by
  have hall : ∀ c ∈ Nat.toDigits 10 n, c.isDigit = true := fun c hc =>
    Nat.isDigit_of_mem_toDigits (by decide) (by decide) hc
  have hdigits := digits?_eq (Nat.toDigits 10 n ++ [])
  rw [List.takeWhile_append_of_pos hall, List.dropWhile_append_of_pos hall] at hdigits
  simpa using hdigits

/-- The digits of a number above zero do not begin with zero. -/
theorem head?_toDigits {n : Nat} (hn : 0 < n) : (Nat.toDigits 10 n).head? ≠ some '0' := by
  induction n using Nat.strongRecOn with
  | _ n ih =>
      -- The digits of a number begin as those of a tenth of it, until it has only one.
      by_cases hsmall : n < 10
      · have hall : ∀ d < 10, 0 < d → d.digitChar ≠ '0' := by decide
        rw [Nat.toDigits_of_lt_base hsmall]
        simpa using hall n hsmall hn
      · have hsplit := Nat.toDigits_append_toDigits (b := 10) (n := n / 10) (d := n % 10)
          (by decide) (by omega) (by omega)
        rw [Nat.div_add_mod] at hsplit
        have hrest := ih (n / 10) (by omega) (by omega)
        cases hdigits : Nat.toDigits 10 (n / 10) with
        | nil => exact absurd hdigits Nat.toDigits_ne_nil
        | cons c rest =>
            rw [hdigits] at hsplit hrest
            rw [← hsplit]
            exact hrest

theorem leadingZero_toDigits (n : Nat) : leadingZero (Nat.toDigits 10 n) = false := by
  by_cases hn : 0 < n
  · have hhead := head?_toDigits hn
    unfold leadingZero
    split
    · rename_i heq
      rw [heq] at hhead
      exact absurd rfl hhead
    · rfl
  · rw [show n = 0 by omega]
    rfl

/-- **The digits of a natural number are read as a number of nothing but these digits.** -/
theorem ofChars?_toDigits (n : Nat) :
    ofChars? (Nat.toDigits 10 n) = some (⟨false, Nat.toDigits 10 n, [], none⟩, []) := by
  have hsigned : signed false (Nat.toDigits 10 n) = (false, Nat.toDigits 10 n) := by
    have hall : ∀ c ∈ Nat.toDigits 10 n, c.isDigit = true := fun c hc =>
      Nat.isDigit_of_mem_toDigits (by decide) (by decide) hc
    cases hdigits : Nat.toDigits 10 n with
    | nil => rfl
    | cons c rest =>
        have hminus : c ≠ '-' := by
          rintro rfl
          have hdigit := hall '-' (by simp [hdigits])
          exact absurd hdigit (by decide)
        simp [signed, hminus]
  rw [ofChars?_eq, hsigned, whole?_eq, digits?_toDigits]
  simp [leadingZero_toDigits, fraction?, exponent?]

theorem ofChars?_minus_toDigits (n : Nat) :
    ofChars? ('-' :: Nat.toDigits 10 n) = some (⟨true, Nat.toDigits 10 n, [], none⟩, []) := by
  rw [ofChars?_eq]
  simp [signed, whole?_eq, digits?_toDigits, leadingZero_toDigits, fraction?, exponent?]

theorem le_ofDigitChars {cs : List Char} {n : Nat} : n ≤ Nat.ofDigitChars 10 cs n := by
  induction cs generalizing n with
  | nil => exact Nat.le_of_eq Nat.ofDigitChars_nil.symm
  | cons c rest ih =>
      rw [Nat.ofDigitChars_cons]
      have hstep : 10 * n + (c.toNat - '0'.toNat) ≤ _ := ih
      omega

/-- Digits are taken up one by one as long as 64 bits hold what they come to. -/
theorem accumulate_eq {cs : List Char} {n : Nat} (h : Nat.ofDigitChars 10 cs n < UInt64.size) :
    accumulate n cs = (Nat.ofDigitChars 10 cs n, []) := by
  induction cs generalizing n with
  | nil => rfl
  | cons c rest ih =>
      rw [Nat.ofDigitChars_cons] at h ⊢
      -- What the count comes to at the end bounds what it comes to here.
      have hstep : 10 * n + digit c < UInt64.size := Nat.lt_of_le_of_lt le_ofDigitChars h
      rw [accumulate, if_pos hstep]
      exact ih h

theorem accumulate_toDigits {n : Nat} (h : n < UInt64.size) :
    accumulate 0 (Nat.toDigits 10 n) = (n, []) := by
  have hvalue : Nat.ofDigitChars 10 (Nat.toDigits 10 n) 0 = n := Nat.ofDigitChars_ten_toDigits
  rw [accumulate_eq (by rwa [hvalue]), hvalue]

end Numeral

/-! ### Numbers that stand alone

`Readable` looks at the text of a number with nothing behind it.  That this is enough is
the law of the first section, and for integers it is never in doubt.
-/

/-- The text of a number is read as the number. -/
def Number.Readable (n : Number) : Prop :=
  ∃ numeral, Numeral.ofChars? (n.write []) = some (numeral, []) ∧ numeral.value? = some n

theorem Number.write_append (n : Number) (rest : List Char) :
    n.write rest = n.write [] ++ rest := by
  cases n with
  | integer i =>
      simp only [write, writeInteger]
      by_cases hneg : i < 0
      · simp [hneg]
      · simp [hneg]
  | real x => simp [write]

/-- **A readable number is read wherever it stands, as long as no number goes on behind it.** -/
theorem Number.Readable.ofChars? {n : Number} (h : n.Readable) {rest : List Char}
    (hrest : Numeral.Stops rest) :
    ∃ numeral, Numeral.ofChars? (n.write rest) = some (numeral, rest) ∧
      numeral.value? = some n := by
  obtain ⟨numeral, hscan, hvalue⟩ := h
  refine ⟨numeral, ?_, hvalue⟩
  rw [n.write_append, Numeral.ofChars?_append hrest, hscan]
  rfl

/-- **Integers of 64 bits, with or without a sign, are readable.** -/
theorem Number.readable_integer {i : Int} (hlow : -0x8000000000000000 ≤ i)
    (hhigh : i < 0x10000000000000000) : (Number.integer i).Readable := by
  by_cases hneg : i < 0
  · refine ⟨⟨true, Nat.toDigits 10 i.natAbs, [], none⟩, ?_, ?_⟩
    · simp only [write, writeInteger, if_pos hneg, List.append_nil]
      exact Numeral.ofChars?_minus_toDigits _
    · have hlt : i.natAbs < UInt64.size := by
        show i.natAbs < 0x10000000000000000
        omega
      have hpos : 0 < i.natAbs ∧ i.natAbs ≤ 0x8000000000000000 := by omega
      have habs : -(i.natAbs : Int) = i := by omega
      simp only [Numeral.value?, Numeral.accumulate_toDigits hlt]
      rw [if_pos ⟨rfl, rfl, rfl⟩, if_neg (not_not_intro trivial), if_pos hpos, habs]
  · refine ⟨⟨false, Nat.toDigits 10 i.natAbs, [], none⟩, ?_, ?_⟩
    · simp only [write, writeInteger, if_neg hneg, List.append_nil]
      exact Numeral.ofChars?_toDigits _
    · have hlt : i.natAbs < UInt64.size := by
        show i.natAbs < 0x10000000000000000
        omega
      have habs : (i.natAbs : Int) = i := by omega
      simp only [Numeral.value?, Numeral.accumulate_toDigits hlt]
      rw [if_pos ⟨rfl, rfl, rfl⟩, if_pos Bool.false_ne_true, habs]

end BytecodeIR.Json
