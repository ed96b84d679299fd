/-
What a decoder needs to recover a value from its JSON form.

`Recovers` ties a decoder, a value of its type and a JSON value together: however the
members of objects are ordered, the decoder answers with the value.  It composes the way
decoders do, so the round trip of a large type is put together from one law for each way
of building a decoder.

A round trip that leads through a text asks for more, namely that the numbers of the JSON
value survive being written and read.  One that leads from value to value does not, and
so this is asked for under a condition, `written`, that every law passes on.  The text
itself comes in only once, at the very end.

Where a document comes from matters for a few shapes only.  A key that is a number
cannot be recovered from an object that was set aside; every other law holds for
all sources.
-/
import BytecodeIR.Proofs.Json.Line
import BytecodeIR.Proofs.Json.Order

namespace BytecodeIR.Json

/-! ### Documents of values

A document is what a reader sees, a value is what a writer makes.  The document of a
value has the same shape, with the names of members as keys; as a value again it is the
sorted one, since a value is put in order when it is made of a document.
-/

theorem isReadable_ofJson (j : Json) : (Document.ofJson j).isReadable = true := by
  induction j using induct with
  | null => rfl
  | bool b => rfl
  | number n => rfl
  | string s => rfl
  | array items ih =>
      rw [Document.ofJson, Document.isReadable, Bool.true_and]
      induction items with
      | nil => rfl
      | cons j js ihs =>
          rw [Document.ofItems, Document.allReadable, ih j List.mem_cons_self,
            ihs fun i hi => ih i (List.mem_cons_of_mem _ hi)]
          rfl
  | object members ih =>
      rw [Document.ofJson, Document.isReadable, Bool.true_and]
      induction members with
      | nil => rfl
      | cons m ms ihs =>
          obtain ⟨name, j⟩ := m
          have hj : (Document.ofJson j).isReadable = true := ih (name, j) List.mem_cons_self
          rw [Document.ofMembers, Document.allMembersReadable, hj,
            ihs fun i hi => ih i (List.mem_cons_of_mem _ hi)]
          rfl

theorem ofItems_eq_map (js : List Json) : Document.ofItems js = js.map Document.ofJson := by
  induction js with
  | nil => rfl
  | cons j js ih => rw [Document.ofItems, ih, List.map_cons]

theorem ofMembers_eq_map (ms : List (String × Json)) :
    Document.ofMembers ms = ms.map fun m => (Document.keyOf m.1, Document.ofJson m.2) := by
  induction ms with
  | nil => rfl
  | cons m ms ih => rw [Document.ofMembers, ih, List.map_cons]

theorem ofMembers_append (ms ns : List (String × Json)) :
    Document.ofMembers (ms ++ ns) = Document.ofMembers ms ++ Document.ofMembers ns := by
  simp only [ofMembers_eq_map, List.map_append]

theorem itemsToJson_eq_map (ds : List Document) :
    Document.itemsToJson ds = ds.map Document.toJson := by
  induction ds with
  | nil => rfl
  | cons d ds ih => rw [Document.itemsToJson, ih, List.map_cons]

theorem membersToJson_ofMembers (ms : List (String × Json)) :
    Document.membersToJson (Document.ofMembers ms) =
      ms.map fun m => (m.1, (Document.ofJson m.2).toJson) := by
  induction ms with
  | nil => rfl
  | cons m ms ih =>
      rw [Document.ofMembers, Document.membersToJson, ih]
      rfl

/-- **What is read of the document of a value is the value with its objects sorted.** -/
theorem toJson_ofJson (j : Json) : (Document.ofJson j).toJson = j.sorted := by
  induction j using induct with
  | null => rfl
  | bool b => rfl
  | number n => rfl
  | string s => rfl
  | array items ih =>
      rw [Document.ofJson, Document.toJson, sorted, itemsToJson_eq_map, ofItems_eq_map,
        List.map_map, sortedItems_eq_map]
      exact congrArg Json.array (List.map_congr_left ih)
  | object members ih =>
      rw [Document.ofJson, Document.toJson, sorted, membersToJson_ofMembers, sortedMembers_eq_map]
      have hmembers : (members.map fun m => (m.1, (Document.ofJson m.2).toJson)) =
          members.map fun m => (m.1, m.2.sorted) := List.map_congr_left fun m hm => by rw [ih m hm]
      rw [hmembers]

/-- An item of an array is less deep than the array. -/
theorem depth_lt_of_mem_array {j : Json} {js : List Json} (h : j ∈ js) :
    (Document.ofJson j).depth < (Document.ofJson (.array js)).depth := by
  rw [Document.ofJson, Document.depth, Nat.lt_succ_iff]
  induction js with
  | nil => simp at h
  | cons i js ih =>
      rw [Document.ofItems, Document.itemsDepth]
      rcases List.mem_cons.mp h with rfl | h
      · exact Nat.le_max_left _ _
      · exact Nat.le_trans (ih h) (Nat.le_max_right _ _)

/-- A member's value is less deep than the object. -/
theorem depth_lt_of_mem_object {name : String} {j : Json} {ms : List (String × Json)}
    (h : (name, j) ∈ ms) : (Document.ofJson j).depth < (Document.ofJson (.object ms)).depth := by
  rw [Document.ofJson, Document.depth, Nat.lt_succ_iff]
  induction ms with
  | nil => simp at h
  | cons m ms ih =>
      obtain ⟨other, i⟩ := m
      rw [Document.ofMembers, Document.membersDepth]
      rcases List.mem_cons.mp h with heq | h
      · cases heq
        exact Nat.le_max_left _ _
      · exact Nat.le_trans (ih h) (Nat.le_max_right _ _)

/-! ### Recovering a value

The relation is stated for every rearrangement of the JSON value, as a map that is
written out and read in again may come back in another order, and for this no object may
have two members of one name.
-/

variable {α β : Type} {written : Prop}

/-- A decoder makes a value of a JSON value, in whatever order the members of its objects are, and
the numbers of the JSON value survive being written and read if it is written. -/
structure Recovers (written : Prop) (d : Decoder α) (src : Source) (j : Json) (a : α) : Prop where
  readable : written → j.Readable
  distinct : j.Distinct
  /-- The decoder answers with the value. -/
  reads : ∀ {i : Json}, Rearranged j i → d src (Document.ofJson i) = .ok a

namespace Recovers

variable {d : Decoder α} {src : Source} {j : Json} {a : α}

/-- **What is recovered from a value is recovered from the value's text.** -/
theorem ofText_text (h : Recovers True d .text j a)
    (hdepth : (Document.ofJson j).depth ≤ nestingLimit) : d.ofText j.text = .ok a := by
  rw [Json.ofText_text d (h.readable trivial) hdepth, h.reads .rfl]

/-- What is recovered from a value is recovered from the value's line. -/
theorem ofText_line (h : Recovers True d .text j a)
    (hdepth : (Document.ofJson j).depth ≤ nestingLimit) : d.ofText (j.text ++ "\n") = .ok a := by
  rw [Json.ofText_line d (h.readable trivial) hdepth, h.reads .rfl]

/-- **What is recovered from a value is recovered from the value with its objects sorted.** -/
theorem ofJson_sorted (h : Recovers written d .tree j a) : d.ofJson j.sorted = .ok a :=
  h.reads (rearranged_sorted h.distinct)

theorem map (h : Recovers written d src j a) (f : α → β) : Recovers written (d.map f) src j (f a) :=
  ⟨h.readable, h.distinct, fun hi => map_eq_ok.mpr ⟨a, h.reads hi, rfl⟩⟩

/-! ### Scalars

For a scalar there is nothing to rearrange, and what remains is one run of the decoder.
-/

/-- A text is only rearranged into itself. -/
theorem of_string {s : String} (h : d src (.string s) = .ok a) :
    Recovers written d src (.string s) a := by
  refine ⟨fun _ => trivial, trivial, fun hi => ?_⟩
  cases hi
  exact h

theorem string (s : String) : Recovers written Decoder.string src (.string s) s := of_string rfl

theorem bool (b : Bool) : Recovers written Decoder.bool src (.bool b) b := by
  refine ⟨fun _ => trivial, trivial, fun hi => ?_⟩
  cases hi
  rfl

theorem number {n : Number} (hread : written → n.Readable) (h : d src (.number n) = .ok a) :
    Recovers written d src (.number n) a := by
  refine ⟨hread, trivial, fun hi => ?_⟩
  cases hi
  exact h

theorem integer {low high i : Int} (hlow : -0x8000000000000000 ≤ low)
    (hhigh : high < 0x10000000000000000) (h : low ≤ i ∧ i ≤ high) :
    Recovers written (Decoder.integer low high) src (.integer i) i :=
  number (fun _ => Number.readable_integer (by omega) (by omega)) (if_pos h)

/-- A word is recovered from the integer that it stands for, which lies between bounds that a text
can keep apart. -/
theorem word {low high i : Int} {f : Int → α} (hlow : -0x8000000000000000 ≤ low)
    (hhigh : high < 0x10000000000000000) (h : low ≤ i ∧ i ≤ high) (hf : f i = a) :
    Recovers written ((Decoder.integer low high).map f) src (.integer i) a := by
  rw [← hf]
  exact (integer hlow hhigh h).map f

theorem uint32 (n : UInt32) : Recovers written Decoder.uint32 src (.natural n.toNat) n := by
  have hlt : n.toNat < UInt32.size := n.toNat_lt
  exact word (by decide) (by decide) (by omega) (by simp)

theorem uint64 (n : UInt64) : Recovers written Decoder.uint64 src (.natural n.toNat) n := by
  have hlt : n.toNat < UInt64.size := n.toNat_lt
  exact word (by decide) (by decide) (by omega) (by simp)

theorem int32 (n : Int32) : Recovers written Decoder.int32 src (.integer n.toInt) n :=
  word (by decide) (by decide) ⟨n.minValue_le_toInt, n.toInt_le⟩ n.ofInt_toInt

theorem int64 (n : Int64) : Recovers written Decoder.int64 src (.integer n.toInt) n :=
  word (by decide) (by decide) ⟨n.minValue_le_toInt, n.toInt_le⟩ n.ofInt_toInt

/-- Any value is recovered from itself if its objects are in order. -/
theorem json (hread : written → j.Readable) (h : j.Ordered) :
    Recovers written Decoder.json src j j := by
  refine ⟨hread, h.distinct, fun {i} hi => ?_⟩
  have hsorted : (Document.ofJson i).toJson = j := by
    rw [toJson_ofJson, sorted_of_rearranged h.distinct hi]
    exact h
  unfold Decoder.json
  rw [isReadable_ofJson, if_pos rfl, hsorted]

/-- A name is recovered from its text if it is listed under it. -/
theorem named {values : List (String × α)} {name : String} (h : values.lookup name = some a) :
    Recovers written (Decoder.named values) src (.string name) a := by
  have hname : Decoder.ofName values name = .ok a := by
    unfold Decoder.ofName
    rw [h]
  refine of_string ?_
  cases src with
  | text => exact hname
  | buffered => exact hname
  | tree => exact hname

/-! ### Containers

A rearranged array is an array of rearranged items, so items are recovered one by one.
Entries of an object may be met in any order, and the map that is made of them does not
depend on it.
-/

theorem array {js : List Json} {xs : List α} (h : List.Forall₂ (Recovers written d src) js xs) :
    Recovers written d.list src (.array js) xs := by
  refine ⟨fun hw => readable_array.mpr fun j hj => ?_, distinct_array.mpr fun j hj => ?_,
    fun hi => ?_⟩
  · obtain ⟨x, -, hx⟩ := forall₂_mem_right h hj
    exact hx.readable hw
  · obtain ⟨x, -, hx⟩ := forall₂_mem_right h hj
    exact hx.distinct
  · obtain ⟨is, rfl, his⟩ := rearranged_array.mp hi
    have hreads : (Document.ofItems is).mapM (d src) = .ok xs := by
      rw [ofItems_eq_map, mapM_eq_ok, List.forall₂_map_left_iff]
      exact (forall₂_through his h).imp fun _ _ ⟨_, hj, hx⟩ => hx.reads hj
    exact bind_eq_ok.mpr ⟨xs, hreads, rfl⟩

/-- A list is recovered if each of its elements is. -/
theorem list {encode : α → Json} {xs : List α}
    (h : ∀ x ∈ xs, Recovers written d src (encode x) x) :
    Recovers written d.list src (.list encode xs) xs := by
  refine array (List.forall₂_map_left_iff.mpr ?_)
  exact List.forall₂_same.mpr h

theorem texts (xs : List String) : Recovers written (Decoder.list .string) src (.texts xs) xs :=
  list fun x _ => string x

/-- A value that is there is recovered if it is not written as no value. -/
theorem present (hnull : j ≠ .null) (h : Recovers written d src j a) :
    Recovers written d.option src j (some a) := by
  refine ⟨h.readable, h.distinct, fun {i} hi => ?_⟩
  have hdoc : Document.ofJson i ≠ .null := by
    intro hdoc
    refine hnull ((rearranged_null_iff hi).mp ?_)
    cases i <;> first | rfl | cases hdoc
  have hreads : (d src (Document.ofJson i)).map some = .ok (some a) :=
    map_eq_ok.mpr ⟨a, h.reads hi, rfl⟩
  unfold Decoder.option
  split
  · contradiction
  · exact hreads

/-- An optional value is recovered if the value is, and is not written as no value. -/
theorem option {encode : α → Json} {o : Option α}
    (h : ∀ x ∈ o, encode x ≠ .null ∧ Recovers written d src (encode x) x) :
    Recovers written d.option src (.option encode o) o := by
  cases o with
  | none =>
      refine ⟨fun _ => trivial, trivial, fun hi => ?_⟩
      cases hi
      rfl
  | some x =>
      obtain ⟨hnull, hx⟩ := h x rfl
      exact present hnull hx

theorem pair {e : Decoder β} {i : Json} {b : β} (ha : Recovers written d src j a)
    (hb : Recovers written e src i b) :
    Recovers written (d.pair e) src (.array [j, i]) (a, b) := by
  refine ⟨fun hw => readable_array.mpr ?_, distinct_array.mpr ?_, fun hji => ?_⟩
  · simp [ha.readable hw, hb.readable hw]
  · simp [ha.distinct, hb.distinct]
  · obtain ⟨is, rfl, his⟩ := rearranged_array.mp hji
    cases his with
    | cons hj his =>
      cases his with
      | cons hi hnil =>
        cases hnil
        exact bind_eq_ok.mpr ⟨a, ha.reads hj, bind_eq_ok.mpr ⟨b, hb.reads hi, rfl⟩⟩

/-- Keys that are read back are not written alike. -/
theorem nodup_written {κ ν : Type} {key : Source → Key → Except Problem κ} {write : κ → String}
    {es : List (κ × ν)} (hkey : ∀ e ∈ es, key src (Document.keyOf (write e.1)) = .ok e.1)
    (hkeys : (es.map (·.1)).Nodup) : (es.map fun e => write e.1).Nodup := by
  have hwrite : ((es.map (·.1)).map write).Nodup := by
    refine hkeys.map_on fun k hk k' hk' heq => ?_
    obtain ⟨e, he, rfl⟩ := List.mem_map.mp hk
    obtain ⟨e', he', rfl⟩ := List.mem_map.mp hk'
    have hread := hkey e he
    rw [heq, hkey e' he'] at hread
    exact (Except.ok.inj hread).symm
  rwa [List.map_map] at hwrite

/-- **What is made of entries is recovered if their keys and values are, no two keys agree, and the
order of the entries does not matter.** -/
theorem entries {κ ν : Type} {key : Source → Key → Except Problem κ} {value : Decoder ν}
    (write : κ → String) {encode : ν → Json} {es : List (κ × ν)} {f : List (κ × ν) → α}
    (hkey : ∀ e ∈ es, key src (Document.keyOf (write e.1)) = .ok e.1)
    (hvalue : ∀ e ∈ es, Recovers written value src (encode e.2) e.2)
    (hkeys : (es.map (·.1)).Nodup) (hf : ∀ es', es'.Perm es → f es' = f es) :
    Recovers written ((Decoder.entries key value).map f) src
      (.object (es.map fun e => (write e.1, encode e.2))) (f es) := by
  refine ⟨fun hw => readable_object.mpr fun m hm => ?_, distinct_object.mpr ⟨?_, fun m hm => ?_⟩,
    fun hi => ?_⟩
  · obtain ⟨e, he, rfl⟩ := List.mem_map.mp hm
    exact (hvalue e he).readable hw
  · rw [List.map_map]
    exact nodup_written hkey hkeys
  · obtain ⟨e, he, rfl⟩ := List.mem_map.mp hm
    exact (hvalue e he).distinct
  · obtain ⟨os, rfl, ns, hns, hperm⟩ := rearranged_object.mp hi
    let read : String × Json → Except Problem (κ × ν) := fun m => do
      let k ← key src (Document.keyOf m.1)
      let v ← value src (Document.ofJson m.2)
      pure (k, v)
    have hns : List.Forall₂ (fun n e => read n = .ok e) ns es := by
      refine ((List.forall₂_and_left es ns).mpr
        ⟨fun _ he => he, List.forall₂_map_left_iff.mp hns⟩).imp (fun e n he => ?_) |>.flip
      obtain ⟨he, hvalue'⟩ := he
      cases hvalue' with
      | of hv =>
        exact bind_eq_ok.mpr ⟨e.1, hkey e he, bind_eq_ok.mpr ⟨e.2, (hvalue e he).reads hv, rfl⟩⟩
    -- The members are read in the order in which they stand.
    obtain ⟨es', hes', hperm'⟩ := List.perm_comp_forall₂ hperm.symm hns
    have hreads : Decoder.entries key value src (Document.ofJson (.object os)) = .ok es' := by
      refine bind_eq_ok.mpr ⟨es', ?_, rfl⟩
      rw [ofMembers_eq_map, mapM_eq_ok, List.forall₂_map_left_iff]
      exact hes'
    exact map_eq_ok.mpr ⟨es', hreads, hf es' hperm'⟩

end Recovers

/-! ### Keys

A key is a text, and one that is made of digits is read as a number too, though not
everywhere: of an object that was set aside only the texts of its keys are left.
-/

theorem textKey_keyOf (src : Source) (name : String) :
    Decoder.textKey src (Document.keyOf name) = .ok name := rfl

/-- Digits stand for themselves in a string. -/
theorem writeEscaped_toDigits (n : Nat) (rest : List Char) :
    writeEscaped (Nat.toDigits 10 n) rest = Nat.toDigits 10 n ++ '"' :: rest := by
  have hall : ∀ c ∈ Nat.toDigits 10 n, escape c = [c] := by
    intro c hc
    have hdigit : c.isDigit = true := Nat.isDigit_of_mem_toDigits (by decide) (by decide) hc
    have hlow : ¬ c.toNat < 0x20 := by
      have hrange : 48 ≤ c.toNat ∧ c.toNat ≤ 57 := Char.isDigit_iff_toNat.mp hdigit
      omega
    have hne : ∀ d ∈ ['"', '\\', '\x08', '\x0c', '\n', '\r', '\t'], c ≠ d := by
      rintro d hd rfl
      have hno : ∀ d ∈ ['"', '\\', '\x08', '\x0c', '\n', '\r', '\t'], d.isDigit = false := by simp
      rw [hno c hd] at hdigit
      cases hdigit
    simp only [List.forall_mem_cons] at hne
    simp [escape, hne, hlow]
  rw [writeEscaped_eq, List.flatMap_congr hall, List.flatMap_singleton']

/-- **A number is recovered from a key, except from one that was set aside.** -/
theorem uint32Key_keyOf {src : Source} (hsrc : src ≠ .buffered) (n : UInt32) :
    Decoder.uint32Key src (Document.keyOf (toString n.toNat)) = .ok n := by
  have hlt : n.toNat < 0x100000000 := n.toNat_lt
  have hstops : Numeral.Stops ['"'] := Numeral.stops_cons.mpr ⟨by decide, by decide⟩
  obtain ⟨numeral, hscan, hvalue⟩ :=
    (Number.readable_integer (i := n.toNat) (by omega) (by omega)).ofChars? hstops
  have hwrite : (Number.integer n.toNat).write ['"'] =
      writeEscaped (toString n.toNat).toList [] := by
    have hdigits : (toString n.toNat).toList = Nat.toDigits 10 n.toNat := by simp
    rw [hdigits, writeEscaped_toDigits]
    simp [Number.write, writeInteger]
  have hkey : (Document.keyOf (toString n.toNat)).numeral = .number (.integer n.toNat) true := by
    show scanKeyNumeral _ = _
    rw [← hwrite]
    unfold scanKeyNumeral
    rw [hscan]
    simp only [hvalue]
    rfl
  have hsize : (n.toNat : Int) < 4294967296 := by omega
  unfold Decoder.uint32Key
  rw [hkey]
  cases src with
  | buffered => exact absurd rfl hsrc
  | text => simp [hsize]
  | tree => simp [hsize]

end BytecodeIR.Json
