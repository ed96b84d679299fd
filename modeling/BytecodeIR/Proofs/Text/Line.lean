/-
Texts that are made of lines.

A row is unbroken if the lines of a text can hold it as it is: it has no line feed, which would cut
it, and no carriage return at its end, which the line feed after it would take along.  Rows that are
unbroken are what a text is cut into again once each of them is ended by a line feed, or once line
feeds stand between them.

To be unbroken is a property that texts keep when they are put together, so it is shown of a whole
text by showing it of the parts.  Quoted text has it whatever is quoted.
-/
import BytecodeIR.Text.Line
import BytecodeIR.Text.Quoted

namespace BytecodeIR.Text

/-- A text that one line can hold as it is. -/
structure Unbroken (text : String) : Prop where
  noFeed : '\n' ∉ text.toList
  noReturn : text.toList.getLast? ≠ some '\r'

instance (text : String) : Decidable (Unbroken text) :=
  decidable_of_iff ('\n' ∉ text.toList ∧ text.toList.getLast? ≠ some '\r')
    ⟨fun h => ⟨h.1, h.2⟩, fun h => ⟨h.1, h.2⟩⟩

variable {text a b : String} {rows : List String}

/-! ### Unbroken texts -/

/-- A text without line feeds and carriage returns is unbroken. -/
theorem Unbroken.of_notMem (hfeed : '\n' ∉ text.toList) (hreturn : '\r' ∉ text.toList) :
    Unbroken text := ⟨hfeed, fun h => hreturn (List.mem_of_getLast? h)⟩

theorem Unbroken.empty : Unbroken "" := by decide

theorem Unbroken.append (ha : Unbroken a) (hb : Unbroken b) : Unbroken (a ++ b) := by
  constructor
  · simp [ha.noFeed, hb.noFeed]
  · rw [String.toList_append, List.getLast?_append]
    cases hlast : b.toList.getLast? with
    | none => simpa using ha.noReturn
    | some c => simpa [hlast] using hb.noReturn

/-- A fixed text, checked where it stands. -/
theorem Unbroken.lit (text : String) (h : decide (Unbroken text) = true) : Unbroken text :=
  of_decide_eq_true h

/-- A fixed text after another. -/
theorem Unbroken.then_lit (ha : Unbroken a) (text : String) (h : decide (Unbroken text) = true) :
    Unbroken (a ++ text) := ha.append (lit text h)

theorem Unbroken.join (h : ∀ r ∈ rows, Unbroken r) : Unbroken (String.join rows) := by
  induction rows with
  | nil => exact .empty
  | cons r rows ih =>
      rw [String.join_cons]
      exact (h r List.mem_cons_self).append (ih fun r hr => h r (List.mem_cons_of_mem _ hr))

theorem Unbroken.intercalate (hsep : Unbroken a) (h : ∀ r ∈ rows, Unbroken r) :
    Unbroken (a.intercalate rows) := by
  induction rows with
  | nil => exact .empty
  | cons r rows ih =>
      have hr := h r List.mem_cons_self
      have hrows := ih fun r hr => h r (List.mem_cons_of_mem _ hr)
      cases rows with
      | nil => simpa using hr
      | cons s rows =>
          rw [String.intercalate_cons_cons]
          exact (hr.append hsep).append hrows

/-- What a number is written with are digits. -/
theorem exists_digitChar_of_mem_toDigits {n : Nat} {c : Char} (h : c ∈ Nat.toDigits 16 n) :
    ∃ d, c = Nat.digitChar d := by
  induction n using Nat.strongRecOn with
  | ind n ih =>
      rw [Nat.toDigits_eq_if (by decide)] at h
      split at h
      · exact ⟨n, List.mem_singleton.mp h⟩
      · rcases List.mem_append.mp h with h | h
        · exact ih (n / 16) (by omega) h
        · exact ⟨n % 16, List.mem_singleton.mp h⟩

/-- An escape holds neither the line feed nor the carriage return. -/
theorem notMem_escape {k : Char} (hk : k = '\n' ∨ k = '\r') (c : Char) : k ∉ escape c := by
  by_cases hnamed : c ∈ ['"', '\\', '\n', '\r', '\t', '\x00']
  · simp only [List.mem_cons, List.not_mem_nil, or_false] at hnamed
    rcases hk with rfl | rfl <;> rcases hnamed with rfl | rfl | rfl | rfl | rfl | rfl
    all_goals decide
  simp only [List.mem_cons, List.not_mem_nil, or_false, not_or] at hnamed
  obtain ⟨hquote, hback, hn, hr, ht, hnul⟩ := hnamed
  have hkc : k ≠ c := by
    rcases hk with rfl | rfl
    · exact Ne.symm hn
    · exact Ne.symm hr
  have hdigits : k ∉ Nat.toDigits 16 c.toNat := by
    intro hmem
    obtain ⟨d, hd⟩ := exists_digitChar_of_mem_toDigits hmem
    rcases hk with rfl | rfl
    · exact Nat.digitChar_ne '\n' rfl hd.symm
    · exact Nat.digitChar_ne '\r' rfl hd.symm
  have hbracket : k ∉ ['\\', 'u', '\x7b'] ∧ k ≠ '\x7d' := by
    rcases hk with rfl | rfl
    · decide
    · decide
  unfold escape
  rw [if_neg hquote, if_neg hback, if_neg hn, if_neg hr, if_neg ht, if_neg hnul]
  split
  · simpa using hkc
  · rw [List.mem_append, List.mem_append, List.mem_singleton, not_or, not_or]
    exact ⟨⟨hbracket.1, hdigits⟩, hbracket.2⟩

/-- **Quoted text is unbroken, whatever is quoted.** -/
theorem Unbroken.quoted (text : String) : Unbroken (quoted text) := by
  have hchars : ∀ k, k = '\n' ∨ k = '\r' → k ∉ (Text.quoted text).toList := by
    intro k hk hmem
    simp only [Text.quoted, String.toList_ofList, List.mem_append, List.mem_cons, List.mem_flatMap,
      List.not_mem_nil, or_false] at hmem
    rcases hmem with (rfl | ⟨c, -, hc⟩) | rfl
    · exact absurd hk (by decide)
    · exact notMem_escape hk c hc
    · exact absurd hk (by decide)
  exact .of_notMem (hchars _ (.inl rfl)) (hchars _ (.inr rfl))

/-! ### Cutting a text into lines -/

/-- What ends with the first line feed is the first piece. -/
theorem splitAfterFeed_append {line rest : List Char} (h : '\n' ∉ line) :
    splitAfterFeed (line ++ '\n' :: rest) = (line ++ ['\n']) :: splitAfterFeed rest := by
  induction line with
  | nil => simp [splitAfterFeed]
  | cons c line ih =>
      obtain ⟨hc, hline⟩ := not_or.mp (mt List.mem_cons.mpr h)
      rw [List.cons_append, splitAfterFeed, if_neg (Ne.symm hc), ih hline]
      rfl

/-- What has no line feed is one piece. -/
theorem splitAfterFeed_of_notMem {line : List Char} (h : '\n' ∉ line) (hne : line ≠ []) :
    splitAfterFeed line = [line] := by
  induction line with
  | nil => exact absurd rfl hne
  | cons c line ih =>
      obtain ⟨hc, hline⟩ := not_or.mp (mt List.mem_cons.mpr h)
      rw [splitAfterFeed, if_neg (Ne.symm hc)]
      cases line with
      | nil => rfl
      | cons d line => rw [ih hline (List.cons_ne_nil _ _)]

theorem dropLineEnd_append {line : List Char} (h : line.getLast? ≠ some '\r') :
    dropLineEnd (line ++ ['\n']) = line := by
  simp [dropLineEnd, h]

theorem dropLineEnd_of_notMem {line : List Char} (h : '\n' ∉ line) : dropLineEnd line = line := by
  rw [dropLineEnd, if_neg fun hlast => h (List.mem_of_getLast? hlast)]

/-- An unbroken row with a line feed after it is the first line. -/
theorem lines_append (h : Unbroken a) (rest : String) :
    lines (a ++ "\n" ++ rest) = a :: lines rest := by
  have htext : (a ++ "\n" ++ rest).toList = a.toList ++ '\n' :: rest.toList := by simp
  rw [lines, htext, splitAfterFeed_append h.noFeed, List.map_cons, dropLineEnd_append h.noReturn,
    String.ofList_toList]
  rfl

theorem lines_of_unbroken (h : Unbroken a) (hne : a ≠ "") : lines a = [a] := by
  have hchars : a.toList ≠ [] := fun hnil => hne (String.toList_eq_nil_iff.mp hnil)
  rw [lines, splitAfterFeed_of_notMem h.noFeed hchars, List.map_singleton,
    dropLineEnd_of_notMem h.noFeed, String.ofList_toList]

/-! ### Rows and texts -/

/-- The text of rows that are each ended by a line feed. -/
def ended (rows : List String) : String := String.join (rows.map fun row => row ++ "\n")

@[simp] theorem ended_nil : ended [] = "" := rfl

@[simp] theorem ended_cons (row : String) (rows : List String) :
    ended (row :: rows) = row ++ "\n" ++ ended rows := by
  rw [ended, List.map_cons, String.join_cons, ended]

@[simp] theorem ended_append (rows rows' : List String) :
    ended (rows ++ rows') = ended rows ++ ended rows' := by
  induction rows with
  | nil => simp
  | cons row rows ih => simp only [List.cons_append, ended_cons, ih, String.append_assoc]

theorem ended_flatMap {α : Type} (f : α → List String) (l : List α) :
    ended (l.flatMap f) = String.join (l.map fun a => ended (f a)) := by
  induction l with
  | nil => rfl
  | cons a l ih => rw [List.flatMap_cons, ended_append, ih, List.map_cons, String.join_cons]

/-- **Unbroken rows that are ended by line feeds are the lines of their text.** -/
theorem lines_ended (h : ∀ r ∈ rows, Unbroken r) : lines (ended rows) = rows := by
  induction rows with
  | nil => rfl
  | cons r rows ih =>
      rw [ended_cons, lines_append (h r List.mem_cons_self),
        ih fun r hr => h r (List.mem_cons_of_mem _ hr)]

/-- **Unbroken rows with line feeds between them are the lines of their text**, if the last of them
is not empty. -/
theorem lines_intercalate (h : ∀ r ∈ rows, Unbroken r) (hlast : rows.getLast? ≠ some "") :
    lines ("\n".intercalate rows) = rows := by
  induction rows with
  | nil => rfl
  | cons r rows ih =>
      have hr := h r List.mem_cons_self
      cases rows with
      | nil => simpa using lines_of_unbroken hr (by simpa using hlast)
      | cons s rows =>
          rw [String.intercalate_cons_cons, lines_append hr,
            ih (fun r hr => h r (List.mem_cons_of_mem _ hr)) (by simpa using hlast)]

end BytecodeIR.Text
