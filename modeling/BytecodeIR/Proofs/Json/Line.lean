/-
The text of a value is one line.

A value is printed without blanks and a string escapes the controls among its
characters, so no line feed is ever printed.  The printer writes in front of what
follows, so the statement for one value is that it adds no line feed to that: a
line feed in what is written stands in what followed.

The line feed that ends the line does no harm to a reader: it is space, and space may
follow a value.
-/
import BytecodeIR.Proofs.Decimal.Layout
import BytecodeIR.Proofs.Json.Compact

namespace BytecodeIR.Json

/-- A line feed in what is written in front of a text stands in the text. -/
def AddsNoFeed (write : List Char → List Char) : Prop := ∀ rest, '\n' ∈ write rest → '\n' ∈ rest

theorem feed_notMem_escape (c : Char) : '\n' ∉ escape c := by
  by_cases hnamed : c ∈ ['"', '\\', '\x08', '\x0c', '\n', '\r', '\t']
  · simp only [List.mem_cons, List.not_mem_nil, or_false] at hnamed
    rcases hnamed with rfl | rfl | rfl | rfl | rfl | rfl | rfl
    all_goals decide
  simp only [List.mem_cons, List.not_mem_nil, or_false, not_or] at hnamed
  obtain ⟨hquote, hback, hb, hf, hn, hr, ht⟩ := hnamed
  unfold escape
  rw [if_neg hquote, if_neg hback, if_neg hb, if_neg hf, if_neg hn, if_neg hr, if_neg ht]
  -- Every other control is written by number.
  have hdigit : ∀ n, '\n' ≠ hexDigit n := by
    intro n
    have hall : ∀ k < 16, '\n' ≠ Nat.digitChar k := by decide
    exact hall _ (Nat.mod_lt _ (by decide))
  split
  · simp [hdigit]
  · simpa using Ne.symm hn

theorem addsNoFeed_writeString (s : String) : AddsNoFeed (writeString s) := by
  intro rest h
  unfold writeString at h
  rw [writeEscaped_eq] at h
  simp only [List.mem_cons, List.mem_append, List.mem_flatMap, Char.reduceEq, false_or] at h
  rcases h with ⟨c, -, hfeed⟩ | h
  · exact absurd hfeed (feed_notMem_escape c)
  · exact h

theorem addsNoFeed_number (n : Number) : AddsNoFeed n.write := by
  intro rest h
  have hdigits : ∀ i : Nat, '\n' ∉ Nat.toDigits 10 i := fun i hi =>
    absurd (Layout.isDigit_of_mem_toDigits hi) (by decide)
  cases n with
  | integer i =>
      simp only [Number.write, writeInteger] at h
      split at h <;> simpa [hdigits] using h
  | real x =>
      simp only [Number.write, List.mem_append] at h
      rcases h with h | h
      · split at h
        · exact absurd (Double.mem_text_json ‹_› h) (by decide)
        · exact absurd h (by decide)
      · exact h

theorem addsNoFeed_writeItems {js : List Json} (h : ∀ j ∈ js, AddsNoFeed j.write) :
    AddsNoFeed (writeItems js) := by
  intro rest hfeed
  induction js with
  | nil => simpa [writeItems] using hfeed
  | cons j js ih =>
      rw [writeItems] at hfeed
      -- A line feed in what is written is behind the comma, then behind the item, then in the
      -- rest.
      have hrest := h j List.mem_cons_self _ (List.mem_of_ne_of_mem (by decide) hfeed)
      exact ih (fun i hi => h i (List.mem_cons_of_mem _ hi)) hrest

theorem addsNoFeed_member {j : Json} (h : AddsNoFeed j.write) (name : String) :
    AddsNoFeed fun rest => writeString name (':' :: j.write rest) := by
  intro rest hfeed
  have hvalue := addsNoFeed_writeString name _ hfeed
  exact h rest (List.mem_of_ne_of_mem (by decide) hvalue)

theorem addsNoFeed_writeMembers {ms : List (String × Json)}
    (h : ∀ m ∈ ms, AddsNoFeed m.2.write) : AddsNoFeed (writeMembers ms) := by
  intro rest hfeed
  induction ms with
  | nil => simpa [writeMembers] using hfeed
  | cons m ms ih =>
      obtain ⟨name, j⟩ := m
      rw [writeMembers] at hfeed
      have hmember := addsNoFeed_member (h (name, j) List.mem_cons_self) name
      have hrest := hmember _ (List.mem_of_ne_of_mem (by decide) hfeed)
      exact ih (fun i hi => h i (List.mem_cons_of_mem _ hi)) hrest

/-- A value is written without a line feed. -/
theorem addsNoFeed_write (j : Json) : AddsNoFeed j.write := by
  induction j using induct with
  | null =>
      intro rest h
      simpa [write] using h
  | bool b =>
      intro rest h
      cases b <;> simpa [write] using h
  | number n => exact addsNoFeed_number n
  | string s => exact addsNoFeed_writeString s
  | array items ih =>
      intro rest h
      cases items with
      | nil => simpa [write] using h
      | cons j js =>
          rw [write] at h
          have hrest := ih j List.mem_cons_self _ (List.mem_of_ne_of_mem (by decide) h)
          exact addsNoFeed_writeItems (fun i hi => ih i (List.mem_cons_of_mem _ hi)) rest hrest
  | object members ih =>
      intro rest h
      cases members with
      | nil => simpa [write] using h
      | cons m ms =>
          obtain ⟨name, j⟩ := m
          rw [write] at h
          have hmember := addsNoFeed_member (ih (name, j) List.mem_cons_self) name
          have hrest := hmember _ (List.mem_of_ne_of_mem (by decide) h)
          exact addsNoFeed_writeMembers (fun i hi => ih i (List.mem_cons_of_mem _ hi)) rest hrest

/-- **The text of a value has no line feed.** -/
theorem feed_notMem_text (j : Json) : '\n' ∉ j.text.toList := by
  intro h
  rw [toList_text] at h
  cases addsNoFeed_write j [] h

/-- **The line of a value is read as the value.** -/
theorem ofText_line {α : Type} (d : Decoder α) {j : Json} (h : j.Readable)
    (hdepth : (Document.ofJson j).depth ≤ nestingLimit) :
    d.ofText (j.text ++ "\n") = d .text (Document.ofJson j) := by
  have hline : j.text ++ "\n" = String.ofList (j.write ['\n']) := by
    rw [writesFirst j, String.ofList_append, String.ofList_toList]
  rw [hline]
  exact ofText_write d h hdepth (Numeral.stops_cons.mpr ⟨by decide, by decide⟩) rfl

end BytecodeIR.Json
