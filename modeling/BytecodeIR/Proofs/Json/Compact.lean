/-
The compact text of a value, spelled out.

The printer is written for speed: it puts characters in front of what follows them and
never copies a text.  What it prints is said here as one would say it on paper, as a
relation between values and texts with one rule for each kind of value: an array is the
texts of its items with commas between them, in brackets, an object those of its
members in braces, and there is no blank anywhere.  Every value has one compact
text, the one that is printed.

That a value is written in front of any text as it is written alone is the one fact that
needs an induction over values; the rules for arrays and objects are read off it.
-/
import BytecodeIR.Proofs.Json.Text
import Mathlib.Data.List.Forall2

namespace BytecodeIR.Json

/-! ### The relation -/

/-- A string in quotes, with those of its characters escaped that cannot stand for themselves. -/
def quoted (s : String) : String := "\"" ++ String.ofList (s.toList.flatMap escape) ++ "\""

mutual

/-- A text is a value in JSON, without a blank between tokens. -/
inductive Compact : Json → String → Prop
  | null : Compact .null "null"
  | yes : Compact (.bool true) "true"
  | no : Compact (.bool false) "false"
  | integer (i : Int) : Compact (.integer i) (toString i)
  | real {x : Double} (hx : x.isFinite = true) : Compact (.number (.real x)) (x.text .json)
  /-- There is no numeral for it. -/
  | unwritable {x : Double} (hx : x.isFinite = false) : Compact (.number (.real x)) "null"
  | string (s : String) : Compact (.string s) (quoted s)
  | array {js : List Json} {texts : List String} (h : List.Forall₂ Compact js texts) :
      Compact (.array js) ("[" ++ ",".intercalate texts ++ "]")
  | object {ms : List (String × Json)} {texts : List String}
      (h : List.Forall₂ CompactMember ms texts) :
      Compact (.object ms) ("\x7b" ++ ",".intercalate texts ++ "\x7d")

/-- A text is a member of an object in JSON, without a blank between tokens. -/
inductive CompactMember : String × Json → String → Prop
  | of {name : String} {j : Json} {text : String} (h : Compact j text) :
      CompactMember (name, j) (quoted name ++ ":" ++ text)

end

/-! ### What the printer writes

Behind the first item of an array, every further one is written with a comma in front of
it.
-/

variable {j : Json} {js : List Json} {ms : List (String × Json)} {s t : String} {i : Int}

/-- The text of a member: its name and the text of its value. -/
def memberText (m : String × Json) : String := quoted m.1 ++ ":" ++ m.2.text

theorem toList_text (j : Json) : j.text.toList = j.write [] := String.toList_ofList

theorem toList_intercalate_comma (t : String) (ts : List String) :
    (",".intercalate (t :: ts)).toList = t.toList ++ ts.flatMap fun t => ',' :: t.toList := by
  induction ts generalizing t with
  | nil => simp
  | cons u ts ih =>
      rw [String.intercalate_cons_cons, String.toList_append, String.toList_append, ih]
      simp

theorem writeString_eq (s : String) (rest : List Char) :
    writeString s rest = (quoted s).toList ++ rest := by
  rw [writeString, writeEscaped_eq, quoted]
  simp

/-- Something is written in front of any text as it is written alone. -/
def WritesFirst (j : Json) : Prop := ∀ rest, j.write rest = j.text.toList ++ rest

theorem writeItems_eq (h : ∀ j ∈ js, WritesFirst j) (rest : List Char) :
    writeItems js rest = ((js.map text).flatMap fun t => ',' :: t.toList) ++ ']' :: rest := by
  induction js with
  | nil => rfl
  | cons j js ih =>
      rw [List.forall_mem_cons] at h
      rw [writeItems, h.1, ih h.2]
      simp

theorem writeMembers_eq (h : ∀ m ∈ ms, WritesFirst m.2) (rest : List Char) :
    writeMembers ms rest =
      ((ms.map memberText).flatMap fun t => ',' :: t.toList) ++ '\x7d' :: rest := by
  induction ms with
  | nil => rfl
  | cons m ms ih =>
      obtain ⟨name, j⟩ := m
      rw [List.forall_mem_cons] at h
      rw [writeMembers, h.1, writeString_eq, ih h.2]
      simp [memberText]

theorem write_array (h : ∀ j ∈ js, WritesFirst j) (rest : List Char) :
    (Json.array js).write rest = ("[" ++ ",".intercalate (js.map text) ++ "]").toList ++ rest := by
  cases js with
  | nil => simp [write]
  | cons j js =>
      rw [List.forall_mem_cons] at h
      rw [write, h.1, writeItems_eq h.2, List.map_cons, String.toList_append, String.toList_append,
        toList_intercalate_comma]
      simp

theorem write_object (h : ∀ m ∈ ms, WritesFirst m.2) (rest : List Char) :
    (Json.object ms).write rest =
      ("\x7b" ++ ",".intercalate (ms.map memberText) ++ "\x7d").toList ++ rest := by
  cases ms with
  | nil => simp [write]
  | cons m ms =>
      obtain ⟨name, j⟩ := m
      rw [List.forall_mem_cons] at h
      rw [write, h.1, writeString_eq, writeMembers_eq h.2, List.map_cons, String.toList_append,
        String.toList_append, toList_intercalate_comma]
      simp [memberText]

/-- **A value is written in front of any text as it is written alone.** -/
theorem writesFirst (j : Json) : WritesFirst j := by
  induction j using induct with
  | null => exact fun rest => rfl
  | bool b => cases b <;> exact fun rest => rfl
  | number n =>
      intro rest
      rw [toList_text]
      exact n.write_append rest
  | string s =>
      intro rest
      rw [toList_text, write, write, writeString_eq, writeString_eq, List.append_nil]
  | array items ih =>
      intro rest
      rw [toList_text, write_array ih, write_array ih, List.append_nil]
  | object members ih =>
      intro rest
      rw [toList_text, write_object ih, write_object ih, List.append_nil]

/-! ### The text of each kind of value -/

theorem text_string (s : String) : (Json.string s).text = quoted s := by
  rw [← String.toList_inj, toList_text, write, writeString_eq, List.append_nil]

theorem text_integer (i : Int) : (Json.integer i).text = toString i := by
  rw [← String.toList_inj, toList_text]
  show writeInteger i [] = i.repr.toList
  rw [Int.repr_eq_if, writeInteger]
  by_cases hneg : i < 0
  · have habs : (-i).toNat = i.natAbs := by omega
    rw [if_pos hneg, if_neg (by omega), habs, Nat.repr_eq_ofList_toDigits]
    simp
  · have habs : i.toNat = i.natAbs := by omega
    rw [if_neg hneg, if_pos (by omega), habs, Nat.repr_eq_ofList_toDigits]
    simp

theorem text_real (x : Double) :
    (Json.number (.real x)).text = if x.isFinite then x.text .json else "null" := by
  rw [← String.toList_inj, toList_text, write, Number.write, List.append_nil]
  split <;> rfl

theorem text_array (js : List Json) :
    (Json.array js).text = "[" ++ ",".intercalate (js.map text) ++ "]" := by
  rw [← String.toList_inj, toList_text, write_array fun j _ => writesFirst j, List.append_nil]

theorem text_object (ms : List (String × Json)) :
    (Json.object ms).text = "\x7b" ++ ",".intercalate (ms.map memberText) ++ "\x7d" := by
  rw [← String.toList_inj, toList_text, write_object fun m _ => writesFirst m.2, List.append_nil]

/-! ### The printer prints the compact text -/

theorem compact_text (j : Json) : Compact j j.text := by
  induction j using induct with
  | null => exact .null
  | bool b =>
      cases b with
      | false => exact .no
      | true => exact .yes
  | number n =>
      cases n with
      | integer i =>
          have hi := text_integer i
          unfold Json.integer at hi
          rw [hi]
          exact .integer i
      | real x =>
          rw [text_real]
          split
          · exact .real ‹_›
          · exact .unwritable (Bool.not_eq_true _ ▸ ‹_›)
  | string s =>
      rw [text_string]
      exact .string s
  | array items ih =>
      rw [text_array]
      exact .array (List.forall₂_map_right_iff.mpr (List.forall₂_same.mpr ih))
  | object members ih =>
      rw [text_object]
      exact .object (List.forall₂_map_right_iff.mpr
        (List.forall₂_same.mpr fun m hm => .of (ih m hm)))

theorem Compact.eq_text (h : Compact j t) : t = j.text := by
  induction j using induct generalizing t with
  | null => cases h; rfl
  | bool b => cases h <;> rfl
  | number n =>
      cases h with
      | integer i => exact (text_integer i).symm
      | real hx => rw [text_real, if_pos hx]
      | unwritable hx => rw [text_real, hx]; rfl
  | string s =>
      cases h
      exact (text_string s).symm
  | array items ih =>
      cases h with
      | @array _ texts h =>
        have htexts : texts = items.map text := by
          rw [← List.forall₂_eq_eq_eq, List.forall₂_map_right_iff]
          refine ((List.forall₂_and_left items texts).mpr ⟨fun _ hj => hj, h⟩).imp ?_ |>.flip
          exact fun j t hjt => ih j hjt.1 hjt.2
        rw [text_array, htexts]
  | object members ih =>
      cases h with
      | @object _ texts h =>
        have htexts : texts = members.map memberText := by
          rw [← List.forall₂_eq_eq_eq, List.forall₂_map_right_iff]
          refine ((List.forall₂_and_left members texts).mpr ⟨fun _ hm => hm, h⟩).imp ?_ |>.flip
          rintro m t ⟨hm, hmember⟩
          cases hmember with
          | of hj =>
            rw [ih _ hm hj]
            rfl
        rw [text_object, htexts]

/-- **The text that is printed for a value is its one compact text.** -/
theorem compact_iff : Compact j t ↔ t = j.text :=
  ⟨Compact.eq_text, fun h => h ▸ compact_text j⟩

end BytecodeIR.Json
