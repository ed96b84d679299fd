/-
What the text of a finite number looks like.

Two things about it matter to a reader.  It is made of digits, points, signs and
the mark of an exponent, so nothing in it separates tokens; and it has a point or
a mark, so it is never taken for an integer.  Both are read off the two ways in
which a magnitude is laid out.
-/
import BytecodeIR.Decimal.Layout

namespace BytecodeIR

namespace Layout

theorem isDigit_of_mem_toDigits {n : Nat} {c : Char} (h : c ∈ Nat.toDigits 10 n) :
    c.isDigit = true := Nat.isDigit_of_mem_toDigits (by decide) (by decide) h

/-! ### The two ways of laying out

A magnitude is written positionally, with zeros filled in up to its point, or
scientifically, with the mark of an exponent.  The first always has a point in it and
the second always a mark, whatever the digits are and wherever the point falls.
-/

theorem point_mem_positional {digits : List Char} {point : Int} :
    '.' ∈ positional digits point := by
  unfold positional
  split
  · simp
  · split
    · simp
    · simp

theorem mem_positional {digits : List Char} {point : Int} {c : Char}
    (h : c ∈ positional digits point) : c ∈ digits ∨ c = '0' ∨ c = '.' := by
  unfold positional at h
  split at h
  · simp only [List.mem_cons, List.mem_append, List.mem_replicate] at h
    rcases h with h | h | h | h
    · exact .inr (.inl h)
    · exact .inr (.inr h)
    · exact .inr (.inl h.2)
    · exact .inl h
  · split at h
    · simp only [List.mem_append, List.mem_replicate, List.mem_cons, List.not_mem_nil,
        or_false] at h
      rcases h with (h | h) | h | h
      · exact .inl h
      · exact .inr (.inl h.2)
      · exact .inr (.inr h)
      · exact .inr (.inl h)
    · rcases List.mem_append.mp h with h | h
      · exact .inl (List.mem_of_mem_take h)
      · rcases List.mem_cons.mp h with h | h
        · exact .inr (.inr h)
        · exact .inl (List.mem_of_mem_drop h)

theorem mark_mem_scientific {l : Layout} {digits : List Char} {exponent : Int} :
    'e' ∈ l.scientific digits exponent := by
  unfold scientific
  simp

theorem mem_scientific {l : Layout} {digits : List Char} {exponent : Int} {c : Char}
    (h : c ∈ l.scientific digits exponent) :
    c ∈ digits ∨ c.isDigit = true ∨ c ∈ l.plus.toList ∨ c ∈ ['.', 'e', '-'] := by
  unfold scientific at h
  simp only [List.mem_append, List.mem_cons] at h
  rcases h with h | h | h | h
  · split at h
    · cases h
    · exact .inl h
    · simp only [List.mem_cons] at h ⊢
      rcases h with h | h | h
      · exact .inl (.inl h)
      · simp [h]
      · exact .inl (.inr h)
  · simp [h]
  · split at h
    · simp_all
    · exact .inr (.inr (.inl h))
  · exact .inr (.inl (isDigit_of_mem_toDigits h))

/-! ### The text of a number

Which of the two ways is taken depends on the size of the number; for what its text is
made of, it does not matter.  Only zero and the numbers that are not finite have words
of their own, and of these a finite number can only be the first.
-/

/-- A finite magnitude is laid out with a point or with the mark of an exponent. -/
theorem point_or_mark_mem_magnitude {l : Layout} {d : Decimal} :
    '.' ∈ l.magnitude d ∨ 'e' ∈ l.magnitude d := by
  unfold magnitude
  dsimp only
  split
  · exact .inl point_mem_positional
  · exact .inr mark_mem_scientific

/-- A magnitude is made of digits, points, marks and signs. -/
theorem mem_magnitude {l : Layout} {d : Decimal} {c : Char} (h : c ∈ l.magnitude d) :
    c.isDigit = true ∨ c ∈ l.plus.toList ∨ c ∈ ['.', 'e', '-'] := by
  unfold magnitude at h
  dsimp only at h
  split at h
  · rcases mem_positional h with h | rfl | rfl
    · exact .inl (isDigit_of_mem_toDigits h)
    · exact .inl (by decide)
    · exact .inr (.inr (by decide))
  · rcases mem_scientific h with h | h | h | h
    · exact .inl (isDigit_of_mem_toDigits h)
    · exact .inl h
    · exact .inr (.inl h)
    · exact .inr (.inr h)

theorem mem_magnitude_json {d : Decimal} {c : Char} (h : c ∈ json.magnitude d) :
    c.isDigit = true ∨ c ∈ ['.', 'e', '+', '-'] := by
  rcases mem_magnitude h with h | h | h
  · exact .inl h
  · have hplus : c = '+' := by simpa [json] using h
    simp [hplus]
  · simp only [List.mem_cons, List.not_mem_nil, or_false] at h
    rcases h with rfl | rfl | rfl
    · exact .inr (by decide)
    · exact .inr (by decide)
    · exact .inr (by decide)

/-- What a number is written with, finite or not. -/
theorem mem_word {l : Layout} {f : BinaryFormat} {negative : Bool} {w : Nat} {c : Char}
    (h : c ∈ l.word f negative w) :
    c.isDigit = true ∨ c ∈ l.plus.toList ∨ c ∈ "NaNinf.e-".toList := by
  -- A word is one of the names, or zero, or a magnitude, and a sign may come first.
  have hparts : c ∈ "NaN".toList ∨ c = '-' ∨ c ∈ "inf".toList ∨ c ∈ "0.0".toList ∨
      ∃ d, c ∈ l.magnitude d := by
    unfold word at h
    dsimp only at h
    grind
  have hwords : ∀ c ∈ "NaN-inf0.0".toList, c.isDigit = true ∨ c ∈ "NaNinf.e-".toList := by simp
  have hmarks : ∀ c ∈ ['.', 'e', '-'], c ∈ "NaNinf.e-".toList := by simp
  rcases hparts with h | rfl | h | h | ⟨d, h⟩
  · exact (hwords c (by grind)).imp_right .inr
  · exact .inr (.inr (by decide))
  · exact (hwords c (by grind)).imp_right .inr
  · exact (hwords c (by grind)).imp_right .inr
  · exact (mem_magnitude h).imp_right (Or.imp_right (hmarks c))

end Layout

namespace Double

variable {x : Double}

/-- The text of a finite number is a magnitude with a sign or without one, zero included. -/
theorem text_json_eq (hx : x.isFinite = true) :
    ∃ magnitude, ((∃ d, magnitude = Layout.json.magnitude d) ∨ magnitude = "0.0".toList) ∧
      (x.text .json).toList = if x.isNegative then '-' :: magnitude else magnitude := by
  have hfinite : x.word < binary64.infinity := by simpa [isFinite] using hx
  have hnan : ¬ binary64.infinity < x.word := by omega
  have hinf : x.word ≠ binary64.infinity := by omega
  have htext : (x.text .json).toList = Layout.json.word binary64 x.isNegative x.word :=
    String.toList_ofList
  rw [htext]
  unfold Layout.word
  rw [if_neg hnan]
  simp only [if_neg hinf]
  by_cases hzero : x.word = 0
  · exact ⟨_, .inr rfl, by rw [if_pos hzero]⟩
  · exact ⟨_, .inl ⟨_, rfl⟩, by rw [if_neg hzero]⟩

/-- **The text of a finite number has a point or the mark of an exponent.** -/
theorem point_or_mark_mem_text (hx : x.isFinite = true) :
    '.' ∈ (x.text .json).toList ∨ 'e' ∈ (x.text .json).toList := by
  obtain ⟨magnitude, hmagnitude, htext⟩ := text_json_eq hx
  have hmem : '.' ∈ magnitude ∨ 'e' ∈ magnitude := by
    rcases hmagnitude with ⟨d, rfl⟩ | rfl
    · exact Layout.point_or_mark_mem_magnitude
    · exact .inl (by decide)
  rw [htext]
  split
  · exact hmem.imp (List.mem_cons_of_mem _) (List.mem_cons_of_mem _)
  · exact hmem

/-- **The text of a finite number is made of digits, points, signs and marks.** -/
theorem mem_text_json (hx : x.isFinite = true) {c : Char} (hc : c ∈ (x.text .json).toList) :
    c.isDigit = true ∨ c ∈ ['.', 'e', '+', '-'] := by
  obtain ⟨magnitude, hmagnitude, htext⟩ := text_json_eq hx
  have hall : c ∈ magnitude → c.isDigit = true ∨ c ∈ ['.', 'e', '+', '-'] := by
    intro hmem
    rcases hmagnitude with ⟨d, rfl⟩ | rfl
    · exact Layout.mem_magnitude_json hmem
    · have hzero : ∀ c ∈ "0.0".toList, c.isDigit = true ∨ c ∈ ['.', 'e', '+', '-'] := by simp
      exact hzero c hmem
  rw [htext] at hc
  split at hc
  · rcases List.mem_cons.mp hc with rfl | hc
    · exact .inr (by decide)
    · exact hall hc
  · exact hall hc

end Double

end BytecodeIR
