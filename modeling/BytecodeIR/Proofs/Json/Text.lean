/-
A printed text is read as the value that was printed.

The printer writes a value in front of whatever follows it, so the statement for
one value is that reading stops exactly where the value ends: `Scans` says this
for every continuation at once, as long as no number goes on there.  Arrays and
objects then go through item by item, each item being read with the rest of the
container as its continuation.

The reader counts brackets and steps.  Brackets are bounded by the depth of the
value.  Steps are bounded by twice what is left of the text, and this bound is
carried along: every step either takes a character or enters a value.
-/
import BytecodeIR.Json.Decoder
import BytecodeIR.Proofs.Json.Numeral

namespace BytecodeIR.Json

open Numeral (Stops stops_cons stops_nil)

/-! ### Induction over JSON values

Values nest in lists and in lists of pairs, so the recursion that comes with the type
runs over three types at once.  `induct` has one case for an array and one for an
object, each with the property for all that stands inside.
-/

/-- A property that passes from the items of an array and from the values of an object to the
whole holds of every value. -/
@[elab_as_elim] theorem induct {p : Json → Prop} (null : p .null) (bool : ∀ b, p (.bool b))
    (number : ∀ n, p (.number n)) (string : ∀ s, p (.string s))
    (array : ∀ items, (∀ j ∈ items, p j) → p (.array items))
    (object : ∀ members, (∀ m ∈ members, p m.2) → p (.object members)) : ∀ j, p j
  | .null => null
  | .bool b => bool b
  | .number n => number n
  | .string s => string s
  | .array items => array items fun j _ => induct null bool number string array object j
  | .object members =>
    object members fun m _ => induct null bool number string array object m.2
termination_by j => sizeOf j
decreasing_by
  · have hlt := List.sizeOf_lt_of_mem ‹_›
    simp only [Json.array.sizeOf_spec]
    omega
  · have hlt := List.sizeOf_lt_of_mem ‹_›
    rename_i hmem
    cases m
    simp only [Json.object.sizeOf_spec, Prod.mk.sizeOf_spec] at hlt ⊢
    omega

mutual

/-- Every number in a value is readable. -/
def Readable : Json → Prop
  | .null => True
  | .bool _ => True
  | .number n => n.Readable
  | .string _ => True
  | .array items => ItemsReadable items
  | .object members => MembersReadable members

/-- Every number in the items of an array is readable. -/
def ItemsReadable : List Json → Prop
  | [] => True
  | j :: js => j.Readable ∧ ItemsReadable js

/-- Every number in the members of an object is readable. -/
def MembersReadable : List (String × Json) → Prop
  | [] => True
  | (_, j) :: ms => j.Readable ∧ MembersReadable ms

end

theorem readable_array {items : List Json} :
    (Json.array items).Readable ↔ ∀ j ∈ items, j.Readable := by
  show ItemsReadable items ↔ _
  induction items with
  | nil => simp [ItemsReadable]
  | cons j js ih => rw [ItemsReadable, ih, List.forall_mem_cons]

theorem readable_object {members : List (String × Json)} :
    (Json.object members).Readable ↔ ∀ m ∈ members, m.2.Readable := by
  show MembersReadable members ↔ _
  induction members with
  | nil => simp [MembersReadable]
  | cons m ms ih => rw [MembersReadable, ih, List.forall_mem_cons]

/-! ### Strings

A string is read in two steps: into pieces up to the quote that ends it, and the pieces
into characters.  A character is written as itself, by a letter behind a backslash, or
by its number; `pieceOf` is the piece that comes out of it, and joining the pieces gives
the character in each case.  Only characters below a blank are written by number, so no
half of a surrogate pair is ever met.
-/

/-- The piece that a character of a string is written as: controls without a letter of their own
become numbers. -/
def pieceOf (c : Char) : Piece :=
  if c.toNat < 0x20 ∧ c ∉ ['\x08', '\x0c', '\n', '\r', '\t'] then .unit c.toNat else .char c

theorem scanPieces_escape {done : List Piece} {c : Char} {tail : List Char} :
    scanPieces done (escape c ++ tail) = scanPieces (pieceOf c :: done) tail := by
  -- Seven characters have a letter of their own; each of them is tried.
  by_cases hnamed : c ∈ ['"', '\\', '\x08', '\x0c', '\n', '\r', '\t']
  · simp only [List.mem_cons, List.not_mem_nil, or_false] at hnamed
    rcases hnamed with rfl | rfl | rfl | rfl | rfl | rfl | rfl
    all_goals rfl
  simp only [List.mem_cons, List.not_mem_nil, or_false, not_or] at hnamed
  obtain ⟨hquote, hback, hb, hf, hn, hr, ht⟩ := hnamed
  unfold escape
  rw [if_neg hquote, if_neg hback, if_neg hb, if_neg hf, if_neg hn, if_neg hr, if_neg ht]
  by_cases hcontrol : c.toNat < 0x20
  · have hunit : ∀ n < 0x20, hexUnit? '0' '0' (hexDigit (n / 16)) (hexDigit n) = some n := by decide
    have hpiece : pieceOf c = .unit c.toNat := by
      unfold pieceOf
      rw [if_pos ⟨hcontrol, by simp [hb, hf, hn, hr, ht]⟩]
    rw [if_pos hcontrol, hpiece]
    simp only [List.cons_append, List.nil_append]
    rw [scanPieces, hunit c.toNat hcontrol]
  · have hpiece : pieceOf c = .char c := by
      unfold pieceOf
      rw [if_neg fun h => hcontrol h.1]
    rw [if_neg hcontrol, hpiece, List.singleton_append, scanPieces]
    · rw [if_neg (by simp [hback, hcontrol])]
    · exact hquote
    · simp [hback]
    · simp [hback]

theorem joinPieces?_unit {done : List Char} {n : Nat} {rest : List Piece} (h : n < 0xd800) :
    joinPieces? done (.unit n :: rest) = joinPieces? (Char.ofNat n :: done) rest := by
  have hwhole : n < 0xd800 ∨ 0xe000 ≤ n := .inl h
  cases rest with
  | nil => exact if_pos hwhole
  | cons piece more =>
      cases piece with
      | char c => exact if_pos hwhole
      | unit m => exact if_pos hwhole

theorem joinPieces?_map {done cs : List Char} :
    joinPieces? done (cs.map pieceOf) = some (done.reverse ++ cs) := by
  induction cs generalizing done with
  | nil => simp [joinPieces?]
  | cons c cs ih =>
      have hstep : joinPieces? done (pieceOf c :: cs.map pieceOf) =
          joinPieces? (c :: done) (cs.map pieceOf) := by
        by_cases hcontrol : c.toNat < 0x20 ∧ c ∉ ['\x08', '\x0c', '\n', '\r', '\t']
        · rw [show pieceOf c = .unit c.toNat from if_pos hcontrol,
            joinPieces?_unit (by omega), Char.ofNat_toNat]
        · rw [show pieceOf c = .char c from if_neg hcontrol, joinPieces?]
      rw [List.map_cons, hstep, ih]
      simp

theorem writeEscaped_cons (c : Char) (cs rest : List Char) :
    writeEscaped (c :: cs) rest = escape c ++ writeEscaped cs rest := rfl

theorem scanPieces_writeEscaped {done : List Piece} {cs rest : List Char} :
    scanPieces done (writeEscaped cs rest) = some (done.reverse ++ cs.map pieceOf, rest) := by
  induction cs generalizing done with
  | nil => simp [writeEscaped, scanPieces]
  | cons c cs ih =>
      rw [writeEscaped_cons, scanPieces_escape, ih]
      simp

/-- **A string is read back, whatever its characters are and whatever follows it.** -/
theorem scanString_writeEscaped {cs rest : List Char} :
    scanString (writeEscaped cs rest) = some (some (String.ofList cs), rest) := by
  unfold scanString
  rw [scanPieces_writeEscaped, List.reverse_nil, List.nil_append]
  simp [joinPieces?_map]

theorem writeEscaped_eq (cs rest : List Char) :
    writeEscaped cs rest = cs.flatMap escape ++ '"' :: rest := by
  induction cs with
  | nil => rfl
  | cons c cs ih => rw [writeEscaped_cons, ih, List.flatMap_cons, List.append_assoc]

/-- What a key is as a number does not depend on what follows the key. -/
theorem scanKeyNumeral_writeEscaped (cs rest : List Char) :
    scanKeyNumeral (writeEscaped cs rest) = scanKeyNumeral (writeEscaped cs []) := by
  have hquote : ∀ more : List Char, Stops ('"' :: more) := fun more =>
    stops_cons.mpr ⟨by decide, by decide⟩
  -- Only the first character behind the numeral is looked at, and behind the key that is the
  -- quote.
  have hhead : ∀ after : List Char,
      (after ++ '"' :: rest).head? = (after ++ ['"']).head? := by
    intro after
    cases after with
    | nil => rfl
    | cons c more => rfl
  unfold scanKeyNumeral
  rw [writeEscaped_eq, writeEscaped_eq, Numeral.ofChars?_append (hquote rest),
    Numeral.ofChars?_append (hquote [])]
  cases Numeral.ofChars? (cs.flatMap escape) with
  | none => rfl
  | some p => simp only [Option.map_some, hhead]

/-! ### Scalars

Reading a value looks at one character and decides what is to be read.  The lemmas go
through these decisions from the outside: a text that begins in this way is read by that
reader.  Where a value may stand, space is skipped first, and a bracket that closes is
taken for the end; a text that `Opens` is neither.
-/

/-- The first character of a value: it is no space, and it closes no array. -/
def Opens (cs : List Char) : Prop := ∃ c rest, cs = c :: rest ∧ isSpace c = false ∧ c ≠ ']'

theorem skipSpace_of_opens {cs : List Char} (h : Opens cs) : skipSpace cs = cs := by
  obtain ⟨c, rest, rfl, hspace, -⟩ := h
  exact List.dropWhile_cons_of_neg (by simp [hspace])

/-- The text of a readable number begins with a digit or a minus sign. -/
theorem Number.Readable.head {n : Number} (h : n.Readable) (rest : List Char) :
    ∃ c more, n.write rest = c :: more ∧ (c = '-' ∨ c.isDigit = true) := by
  obtain ⟨numeral, hscan, -⟩ := h
  rw [n.write_append]
  generalize n.write [] = cs at hscan
  rw [Numeral.ofChars?_eq] at hscan
  obtain ⟨w, hwhole, -⟩ := Option.bind_eq_some_iff.mp hscan
  rw [Numeral.whole?_eq] at hwhole
  obtain ⟨⟨ds, after⟩, hdigits, -⟩ := Option.bind_eq_some_iff.mp hwhole
  obtain ⟨heq, hne, hall⟩ := Numeral.eq_append_of_digits? hdigits
  obtain ⟨mark, hmark, hsign⟩ := Numeral.eq_append_of_signed false cs
  rw [heq] at hmark
  -- Without a sign the number begins with its first digit, and it has one.
  cases mark with
  | nil =>
      obtain ⟨d, more, rfl⟩ := List.exists_cons_of_ne_nil hne
      exact ⟨d, more ++ after ++ rest, by rw [hmark]; rfl, .inr (hall d List.mem_cons_self)⟩
  | cons c more =>
      refine ⟨c, more ++ (ds ++ after) ++ rest, by rw [hmark]; rfl, .inl ?_⟩
      exact (hsign c List.mem_cons_self).resolve_right (by simp)

/-- Such a character is none of those that other things begin with. -/
theorem notMem_of_minus_or_digit {c : Char} (h : c = '-' ∨ c.isDigit = true) {ds : List Char}
    (hds : ∀ d ∈ ds, d ≠ '-' ∧ d.isDigit = false) : c ∉ ds := by
  intro hmem
  obtain ⟨hminus, hdigit⟩ := hds c hmem
  rcases h with h | h
  · exact hminus h
  · rw [hdigit] at h
    cases h

theorem isSpace_of_minus_or_digit {c : Char} (h : c = '-' ∨ c.isDigit = true) :
    isSpace c = false := by
  have hblank : c ∉ [' ', '\n', '\t', '\r'] := notMem_of_minus_or_digit h (by simp)
  simp only [List.mem_cons, List.not_mem_nil, or_false, not_or] at hblank
  simp [isSpace, hblank]

theorem Number.Readable.opens {n : Number} (h : n.Readable) (rest : List Char) :
    Opens (n.write rest) := by
  obtain ⟨c, more, hcs, hc⟩ := h.head rest
  have hclose : c ∉ [']'] := notMem_of_minus_or_digit hc (by simp)
  exact ⟨c, more, hcs, isSpace_of_minus_or_digit hc, List.ne_of_not_mem_cons hclose⟩

/-- Unless it begins one of the three words, a scalar is read as a number. -/
theorem scanScalar_numeral {c : Char} {rest : List Char} (hc : c ∉ ['n', 't', 'f']) :
    scanScalar (c :: rest) =
      match Numeral.ofChars? (c :: rest) with
      | none => ⟨.broken, none⟩
      | some (numeral, after) =>
        match numeral.value? with
        | none => ⟨.unreadable, some after⟩
        | some n => ⟨.number n, some after⟩ := by
  simp only [List.mem_cons, List.not_mem_nil, or_false, not_or] at hc
  rw [scanScalar.eq_def]
  split
  · simp_all
  · simp_all
  · simp_all
  · rfl

theorem scanScalar_number {n : Number} (h : n.Readable) {rest : List Char} (hrest : Stops rest) :
    scanScalar (n.write rest) = ⟨.number n, some rest⟩ := by
  obtain ⟨numeral, hscan, hvalue⟩ := h.ofChars? hrest
  obtain ⟨c, more, hcs, hc⟩ := h.head rest
  rw [hcs] at hscan ⊢
  rw [scanScalar_numeral (notMem_of_minus_or_digit hc (by simp)), hscan]
  simp only [hvalue]

/-- What is neither a string nor a container is read as a scalar. -/
theorem scanValue_scalar {fuel room : Nat} {c : Char} {rest : List Char}
    (hspace : isSpace c = false) (hc : c ∉ ['"', '[', '\x7b']) :
    scanValue (fuel + 1) room (c :: rest) = scanScalar (c :: rest) := by
  have hskip : skipSpace (c :: rest) = c :: rest := List.dropWhile_cons_of_neg (by simp [hspace])
  simp only [List.mem_cons, List.not_mem_nil, or_false, not_or] at hc
  rw [scanValue, hskip]
  split
  · simp_all
  · simp_all
  · simp_all
  · rfl

/-- An array that is not empty is read item by item. -/
theorem scanValue_array {fuel room : Nat} {body : List Char} (h : Opens body) (hroom : room ≠ 0) :
    scanValue (fuel + 1) room ('[' :: body) =
      ⟨.array (scanItems fuel (room - 1) body).node (scanItems fuel (room - 1) body).rest.isSome,
        (scanItems fuel (room - 1) body).rest⟩ := by
  have hskip : skipSpace ('[' :: body) = '[' :: body := rfl
  rw [scanValue, hskip]
  simp only [skipSpace_of_opens h, if_neg hroom]
  obtain ⟨c, more, rfl, -, hclose⟩ := h
  split
  · simp_all
  · rfl

/-- An object that is not empty is read member by member. -/
theorem scanValue_object {fuel room : Nat} {name : String} {more : List Char} (hroom : room ≠ 0) :
    scanValue (fuel + 1) room ('\x7b' :: writeString name more) =
      ⟨.object (scanMembers fuel (room - 1) (writeString name more)).node
          (scanMembers fuel (room - 1) (writeString name more)).rest.isSome,
        (scanMembers fuel (room - 1) (writeString name more)).rest⟩ := by
  have hskip : skipSpace ('\x7b' :: writeString name more) = '\x7b' :: writeString name more := rfl
  have hopen : skipSpace (writeString name more) = writeString name more := rfl
  unfold writeString at hskip hopen ⊢
  rw [scanValue, hskip]
  simp only [hopen, if_neg hroom]
  rfl

/-! ### Values

Where a value may stand, its text is taken neither for space nor for the end of an
array.
-/

theorem Readable.opens {j : Json} (h : j.Readable) (rest : List Char) : Opens (j.write rest) := by
  cases j with
  | null => exact ⟨'n', _, rfl, by decide, by decide⟩
  | bool b =>
      cases b with
      | true => exact ⟨'t', _, rfl, by decide, by decide⟩
      | false => exact ⟨'f', _, rfl, by decide, by decide⟩
  | number n => exact Number.Readable.opens h rest
  | string s => exact ⟨'"', _, rfl, by decide, by decide⟩
  | array items => cases items <;> exact ⟨'[', _, rfl, by decide, by decide⟩
  | object members => cases members <;> exact ⟨'\x7b', _, rfl, by decide, by decide⟩

/-! ### Lengths

The reader may take twice as many steps as its text has characters, and two more.  To
see that these suffice inside a container, it has to be known that the text still to be
read gets no longer from item to item.
-/

theorem lt_length_writeString (s : String) (rest : List Char) :
    rest.length < (writeString s rest).length := by
  unfold writeString
  rw [writeEscaped_eq]
  simp only [List.length_cons, List.length_append]
  omega

section Lengths

/-- Writing in front of a text makes it no shorter. -/
def Lengthens (write : List Char → List Char) : Prop :=
  ∀ rest, rest.length ≤ (write rest).length

theorem lengthens_writeItems {js : List Json} (h : ∀ j ∈ js, Lengthens j.write) :
    Lengthens (writeItems js) := by
  intro rest
  induction js with
  | nil =>
      rw [writeItems, List.length_cons]
      omega
  | cons j js ih =>
      have hrest := ih fun i hi => h i (List.mem_cons_of_mem _ hi)
      have hitem := h j List.mem_cons_self (writeItems js rest)
      rw [writeItems, List.length_cons]
      omega

theorem lengthens_writeMembers {ms : List (String × Json)} (h : ∀ m ∈ ms, Lengthens m.2.write) :
    Lengthens (writeMembers ms) := by
  intro rest
  induction ms with
  | nil =>
      rw [writeMembers, List.length_cons]
      omega
  | cons m ms ih =>
      obtain ⟨name, j⟩ := m
      have hrest := ih fun i hi => h i (List.mem_cons_of_mem _ hi)
      have hvalue : _ ≤ (j.write _).length := h (name, j) List.mem_cons_self (writeMembers ms rest)
      have hname := lt_length_writeString name (':' :: j.write (writeMembers ms rest))
      rw [List.length_cons] at hname
      rw [writeMembers, List.length_cons]
      omega

theorem lengthens_write (j : Json) : Lengthens j.write := by
  induction j using induct with
  | null =>
      intro rest
      simp only [write, List.length_cons]
      omega
  | bool b =>
      intro rest
      cases b with
      | true =>
          simp only [write, List.length_cons]
          omega
      | false =>
          simp only [write, List.length_cons]
          omega
  | number n =>
      intro rest
      show rest.length ≤ (n.write rest).length
      rw [n.write_append, List.length_append]
      omega
  | string s =>
      intro rest
      exact Nat.le_of_lt (lt_length_writeString s rest)
  | array items ih =>
      intro rest
      cases items with
      | nil =>
          simp only [write, List.length_cons]
          omega
      | cons j js =>
          have hrest := lengthens_writeItems (fun i hi => ih i (List.mem_cons_of_mem _ hi)) rest
          have hitem := ih j List.mem_cons_self (writeItems js rest)
          simp only [write, List.length_cons]
          omega
  | object members ih =>
      intro rest
      cases members with
      | nil =>
          simp only [write, List.length_cons]
          omega
      | cons m ms =>
          obtain ⟨name, j⟩ := m
          have hrest := lengthens_writeMembers (fun i hi => ih i (List.mem_cons_of_mem _ hi)) rest
          have hvalue : _ ≤ (j.write _).length :=
            ih (name, j) List.mem_cons_self (writeMembers ms rest)
          have hname := lt_length_writeString name (':' :: j.write (writeMembers ms rest))
          rw [List.length_cons] at hname
          simp only [write, List.length_cons]
          omega

end Lengths

/-! ### Containers

An item of an array is followed by a comma or by the bracket, and neither goes on as a
number.  So each item is read as it would be if it stood alone, and what is left is
where the next one begins.  The induction is on the items, with the text of all later
items as what follows the first.
-/

/-- Reading a value stops where it ends, whatever follows it that is no number. -/
def Scans (j : Json) : Prop :=
  ∀ rest fuel room, Stops rest → (Document.ofJson j).depth ≤ room →
    2 * (j.write rest).length < fuel →
      scanValue fuel room (j.write rest) = ⟨.ofJson j, some rest⟩

theorem stops_writeItems (js : List Json) (rest : List Char) : Stops (writeItems js rest) := by
  cases js with
  | nil => exact stops_cons.mpr ⟨by decide, by decide⟩
  | cons j js => exact stops_cons.mpr ⟨by decide, by decide⟩

theorem stops_writeMembers (ms : List (String × Json)) (rest : List Char) :
    Stops (writeMembers ms rest) := by
  cases ms with
  | nil => exact stops_cons.mpr ⟨by decide, by decide⟩
  | cons m ms => exact stops_cons.mpr ⟨by decide, by decide⟩

section Steps

variable {fuel room : Nat} {cs rest : List Char} {d : Document}

theorem scanItems_last (h : scanValue fuel room cs = ⟨d, some (']' :: rest)⟩) :
    scanItems (fuel + 1) room cs = ⟨[d], some rest⟩ := by
  rw [scanItems]
  simp only [h]
  rfl

theorem scanItems_more (h : scanValue fuel room cs = ⟨d, some (',' :: rest)⟩) (hrest : Opens rest) :
    scanItems (fuel + 1) room cs =
      ⟨d :: (scanItems fuel room rest).node, (scanItems fuel room rest).rest⟩ := by
  have hcomma : skipSpace (',' :: rest) = ',' :: rest := rfl
  rw [scanItems]
  simp only [h, Option.map_some, hcomma, skipSpace_of_opens hrest]
  obtain ⟨c, more, rfl, -, hclose⟩ := hrest
  split
  · simp_all
  · rfl

theorem scanMembers_last {name : String}
    (h : scanValue fuel room cs = ⟨d, some ('\x7d' :: rest)⟩) :
    scanMembers (fuel + 1) room (writeString name (':' :: cs)) =
      ⟨[(Document.keyOf name, d)], some rest⟩ := by
  have hcolon : skipSpace (':' :: cs) = ':' :: cs := rfl
  have hclose : skipSpace ('\x7d' :: rest) = '\x7d' :: rest := rfl
  unfold writeString
  rw [scanMembers]
  simp only [scanString_writeEscaped, hcolon, h, Option.map_some, hclose,
    scanKeyNumeral_writeEscaped, String.ofList_toList]
  rfl

theorem scanMembers_more {name next : String} {more : List Char}
    (h : scanValue fuel room cs = ⟨d, some (',' :: writeString next more)⟩) :
    scanMembers (fuel + 1) room (writeString name (':' :: cs)) =
      ⟨(Document.keyOf name, d) :: (scanMembers fuel room (writeString next more)).node,
        (scanMembers fuel room (writeString next more)).rest⟩ := by
  have hcolon : skipSpace (':' :: cs) = ':' :: cs := rfl
  have hcomma : skipSpace (',' :: writeString next more) = ',' :: writeString next more := rfl
  have hopen : skipSpace (writeString next more) = writeString next more := rfl
  unfold writeString at hopen hcomma h ⊢
  rw [scanMembers]
  simp only [scanString_writeEscaped, hcolon, h, Option.map_some, hcomma, hopen,
    scanKeyNumeral_writeEscaped, String.ofList_toList]
  rfl

end Steps

/-- The items of an array are read one by one, as each of them is. -/
theorem scanItems_write {j : Json} {js : List Json} (hread : ∀ i ∈ j :: js, i.Readable)
    (hscan : ∀ i ∈ j :: js, Scans i) {rest : List Char} {fuel room : Nat}
    (hroom : Document.itemsDepth (Document.ofItems (j :: js)) ≤ room)
    (hfuel : 2 * (j.write (writeItems js rest)).length + 1 < fuel) :
    scanItems fuel room (j.write (writeItems js rest)) =
      ⟨Document.ofItems (j :: js), some rest⟩ := by
  induction js generalizing j fuel with
  | nil =>
      obtain ⟨fuel, rfl⟩ : ∃ k, fuel = k + 1 := ⟨fuel - 1, by omega⟩
      simp only [Document.ofItems, Document.itemsDepth] at hroom
      exact scanItems_last (hscan j List.mem_cons_self (writeItems [] rest) fuel room
        (stops_writeItems _ _) (by omega) (by omega))
  | cons i js ih =>
      obtain ⟨fuel, rfl⟩ : ∃ k, fuel = k + 1 := ⟨fuel - 1, by omega⟩
      rw [Document.ofItems, Document.itemsDepth] at hroom
      -- The first item is read with the other items behind it, which begin with a comma.
      have hitem := hscan j List.mem_cons_self (writeItems (i :: js) rest) fuel room
        (stops_writeItems _ _) (by omega) (by omega)
      have hlen := lengthens_write j (writeItems (i :: js) rest)
      have hcomma : (writeItems (i :: js) rest).length =
          (i.write (writeItems js rest)).length + 1 := by
        rw [writeItems, List.length_cons]
      have hmore : scanItems fuel room (i.write (writeItems js rest)) = _ :=
        ih (fun k hk => hread k (List.mem_cons_of_mem _ hk))
          (fun k hk => hscan k (List.mem_cons_of_mem _ hk)) (by omega) (by omega)
      rw [scanItems_more hitem ((hread i (by simp)).opens _), hmore]
      rfl

/-- The members of an object are read one by one, as each value is. -/
theorem scanMembers_write {name : String} {j : Json} {ms : List (String × Json)}
    (hscan : ∀ m ∈ (name, j) :: ms, Scans m.2) {rest : List Char} {fuel room : Nat}
    (hroom : Document.membersDepth (Document.ofMembers ((name, j) :: ms)) ≤ room)
    (hfuel : 2 * (writeString name (':' :: j.write (writeMembers ms rest))).length + 1 < fuel) :
    scanMembers fuel room (writeString name (':' :: j.write (writeMembers ms rest))) =
      ⟨Document.ofMembers ((name, j) :: ms), some rest⟩ := by
  induction ms generalizing name j fuel with
  | nil =>
      obtain ⟨fuel, rfl⟩ : ∃ k, fuel = k + 1 := ⟨fuel - 1, by omega⟩
      have hname := lt_length_writeString name (':' :: j.write (writeMembers [] rest))
      rw [List.length_cons] at hname
      simp only [Document.ofMembers, Document.membersDepth] at hroom
      have hj : Scans j := hscan (name, j) List.mem_cons_self
      exact scanMembers_last (hj (writeMembers [] rest) fuel room (stops_writeMembers _ _)
        (by omega) (by omega))
  | cons m ms ih =>
      obtain ⟨next, i⟩ := m
      obtain ⟨fuel, rfl⟩ : ∃ k, fuel = k + 1 := ⟨fuel - 1, by omega⟩
      rw [Document.ofMembers, Document.membersDepth] at hroom
      have hj : Scans j := hscan (name, j) List.mem_cons_self
      have hname := lt_length_writeString name
        (':' :: j.write (writeMembers ((next, i) :: ms) rest))
      rw [List.length_cons] at hname
      -- The first value is read with the other members behind it; its name has taken up steps
      -- too.
      have hvalue := hj (writeMembers ((next, i) :: ms) rest) fuel room (stops_writeMembers _ _)
        (by omega) (by omega)
      have hlen := lengthens_write j (writeMembers ((next, i) :: ms) rest)
      have hcomma : (writeMembers ((next, i) :: ms) rest).length =
          (writeString next (':' :: i.write (writeMembers ms rest))).length + 1 := by
        rw [writeMembers, List.length_cons]
      have hmore : scanMembers fuel room _ = _ :=
        ih (fun k hk => hscan k (List.mem_cons_of_mem _ hk)) (by omega) (by omega)
      rw [scanMembers_more hvalue, hmore]
      rfl

/-! ### Whole values

For each kind of value one step of the reader leads to a case that is settled above.  A
scalar is read at once, and a container hands its items one room less, which is where
the depth of the value is used up.
-/

/-- A value takes at least one step to read, so only that case has to be looked at. -/
theorem Scans.of_step {j : Json} (h : ∀ rest fuel room, Stops rest →
    (Document.ofJson j).depth ≤ room → 2 * (j.write rest).length ≤ fuel →
      scanValue (fuel + 1) room (j.write rest) = ⟨.ofJson j, some rest⟩) : Scans j := by
  intro rest fuel room hrest hroom hfuel
  obtain ⟨fuel, rfl⟩ : ∃ k, fuel = k + 1 := ⟨fuel - 1, by omega⟩
  exact h rest fuel room hrest hroom (by omega)

/-- **A value of readable numbers is read back, wherever it stands.** -/
theorem scans_of_readable {j : Json} (h : j.Readable) : Scans j := by
  induction j using induct with
  | null =>
      refine .of_step fun rest fuel room _ _ _ => ?_
      exact scanValue_scalar (by decide) (by decide)
  | bool b =>
      refine .of_step fun rest fuel room _ _ _ => ?_
      cases b with
      | true => exact scanValue_scalar (by decide) (by decide)
      | false => exact scanValue_scalar (by decide) (by decide)
  | number n =>
      -- A number alone needs the text behind it to stop it.
      refine .of_step fun rest fuel room hrest _ _ => ?_
      have hn : n.Readable := h
      have hscalar := scanScalar_number hn hrest
      obtain ⟨c, more, hcs, hc⟩ := hn.head rest
      show scanValue (fuel + 1) room (n.write rest) = _
      rw [hcs] at hscalar ⊢
      rw [scanValue_scalar (isSpace_of_minus_or_digit hc)
        (notMem_of_minus_or_digit hc (by simp)), hscalar]
      rfl
  | string s =>
      refine .of_step fun rest fuel room _ _ _ => ?_
      have hskip : skipSpace (writeString s rest) = writeString s rest := rfl
      show scanValue (fuel + 1) room (writeString s rest) = _
      rw [scanValue, hskip]
      simp only [writeString, scanString_writeEscaped, String.ofList_toList]
      rfl
  | array items ih =>
      refine .of_step fun rest fuel room _ hroom hfuel => ?_
      rw [readable_array] at h
      rw [Document.ofJson, Document.depth] at hroom
      have hroom' : room ≠ 0 := by omega
      cases items with
      | nil =>
          simp only [write]
          rw [scanValue]
          simp [skipSpace, isSpace, hroom', Document.ofJson, Document.ofItems]
      | cons j js =>
          simp only [write, List.length_cons] at hfuel ⊢
          have hitems : scanItems fuel (room - 1) (j.write (writeItems js rest)) = _ :=
            scanItems_write h (fun i hi => ih i hi (h i hi)) (by omega) (by omega)
          rw [scanValue_array ((h j List.mem_cons_self).opens _) hroom', hitems]
          rfl
  | object members ih =>
      refine .of_step fun rest fuel room _ hroom hfuel => ?_
      rw [readable_object] at h
      rw [Document.ofJson, Document.depth] at hroom
      have hroom' : room ≠ 0 := by omega
      cases members with
      | nil =>
          simp only [write]
          rw [scanValue]
          simp [skipSpace, isSpace, hroom', Document.ofJson, Document.ofMembers]
      | cons m ms =>
          obtain ⟨name, j⟩ := m
          simp only [write, List.length_cons] at hfuel ⊢
          have hmembers : scanMembers fuel (room - 1)
              (writeString name (':' :: j.write (writeMembers ms rest))) = _ :=
            scanMembers_write (fun i hi => ih i hi (h i hi)) (by omega) (by omega)
          rw [scanValue_object hroom', hmembers]
          rfl

section Whole

variable {α : Type} (d : Decoder α) {j : Json}

/-- **A value that only space follows is read as the value, and nothing is left over.** -/
theorem ofString_write (h : j.Readable) (hdepth : (Document.ofJson j).depth ≤ nestingLimit)
    {rest : List Char} (hrest : Stops rest) (hspace : skipSpace rest = []) :
    Text.ofString (String.ofList (j.write rest)) = ⟨Document.ofJson j, true⟩ := by
  have hscan := scans_of_readable h rest (2 * (j.write rest).length + 2) nestingLimit hrest hdepth
    (by omega)
  unfold Text.ofString
  simp only [String.toList_ofList, hscan, hspace]
  rfl

/-- A decoder of texts does with a value that only space follows what it does with the value. -/
theorem ofText_write (h : j.Readable) (hdepth : (Document.ofJson j).depth ≤ nestingLimit)
    {rest : List Char} (hrest : Stops rest) (hspace : skipSpace rest = []) :
    d.ofText (String.ofList (j.write rest)) = d .text (Document.ofJson j) := by
  unfold Decoder.ofText
  rw [ofString_write h hdepth hrest hspace]
  simp

/-- A decoder of texts does with the text of a value what it does with the value. -/
theorem ofText_text (h : j.Readable) (hdepth : (Document.ofJson j).depth ≤ nestingLimit) :
    d.ofText j.text = d .text (Document.ofJson j) := ofText_write d h hdepth stops_nil rfl

end Whole

end BytecodeIR.Json
