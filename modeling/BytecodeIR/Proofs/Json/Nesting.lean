/-
What is read nests no deeper than a reader allows.

A reader stops looking into a text where too many brackets are open, so no document
that it makes is deeper than the limit.  A decoder cannot make up for this: whatever
it makes of a document is no deeper, when it is written again, than the document.
That is a law of each way of building a decoder, and `Confines` states it so that the
laws compose.  Of a record it is enough to know this of each of its fields, since
the fields are read from the members of one object or the elements of one array.

So a value whose form is too deep is not recovered from any text, its own included.
-/
import BytecodeIR.Proofs.Json.Record
import BytecodeIR.Proofs.SortedMap

namespace BytecodeIR.Json

/-! ### Documents

The depth of an array or an object is one more than that of the deepest part, and a
maximum is awkward to reason with.  `depth_array_le` and `depth_object_le` take it
apart: a container fits under a bound if each part fits under the next lower one.  The
rules for single values and for one more item are for `simp`, which computes the depth
of a form that is written out.
-/

section Documents

variable {n : Nat}

theorem itemsDepth_le {docs : List Document} :
    Document.itemsDepth docs ≤ n ↔ ∀ d ∈ docs, d.depth ≤ n := by
  induction docs with
  | nil => simp [Document.itemsDepth]
  | cons d rest ih => rw [Document.itemsDepth, Nat.max_le, ih, List.forall_mem_cons]

theorem membersDepth_le {members : List (Key × Document)} :
    Document.membersDepth members ≤ n ↔ ∀ m ∈ members, m.2.depth ≤ n := by
  induction members with
  | nil => simp [Document.membersDepth]
  | cons m rest ih =>
      obtain ⟨key, d⟩ := m
      rw [Document.membersDepth, Nat.max_le, ih, List.forall_mem_cons]

@[simp] theorem depth_null : (Document.ofJson .null).depth = 0 := rfl

@[simp] theorem depth_bool (b : Bool) : (Document.ofJson (.bool b)).depth = 0 := rfl

@[simp] theorem depth_string (s : String) : (Document.ofJson (.string s)).depth = 0 := rfl

@[simp] theorem depth_integer (i : Int) : (Document.ofJson (.integer i)).depth = 0 := rfl

@[simp] theorem depth_natural (k : Nat) : (Document.ofJson (.natural k)).depth = 0 := rfl

@[simp] theorem depth_array_nil : (Document.ofJson (.array [])).depth = 1 := rfl

@[simp] theorem depth_array_cons (j : Json) (js : List Json) :
    (Document.ofJson (.array (j :: js))).depth =
      max ((Document.ofJson j).depth + 1) (Document.ofJson (.array js)).depth :=
  Nat.add_max_add_right _ _ 1 |>.symm

@[simp] theorem depth_object_nil : (Document.ofJson (.object [])).depth = 1 := rfl

@[simp] theorem depth_object_cons (m : String × Json) (ms : List (String × Json)) :
    (Document.ofJson (.object (m :: ms))).depth =
      max ((Document.ofJson m.2).depth + 1) (Document.ofJson (.object ms)).depth :=
  Nat.add_max_add_right _ _ 1 |>.symm

theorem depth_array_le {js : List Json} :
    (Document.ofJson (.array js)).depth ≤ n + 1 ↔ ∀ j ∈ js, (Document.ofJson j).depth ≤ n := by
  rw [Document.ofJson, Document.depth, Nat.add_le_add_iff_right, itemsDepth_le, ofItems_eq_map,
    List.forall_mem_map]

theorem depth_object_le {ms : List (String × Json)} :
    (Document.ofJson (.object ms)).depth ≤ n + 1 ↔ ∀ m ∈ ms, (Document.ofJson m.2).depth ≤ n := by
  rw [Document.ofJson, Document.depth, Nat.add_le_add_iff_right, membersDepth_le, ofMembers_eq_map,
    List.forall_mem_map]

/-- An object with fewer members is no deeper. -/
theorem depth_object_mono {ms more : List (String × Json)} (h : ∀ m ∈ ms, m ∈ more) :
    (Document.ofJson (.object ms)).depth ≤ (Document.ofJson (.object more)).depth := by
  rw [Document.ofJson, Document.depth]
  have hmore : (Document.ofJson (.object more)).depth ≤
      Document.membersDepth (Document.ofMembers more) + 1 := Nat.le_refl _
  exact depth_object_le.mpr fun m hm => depth_object_le.mp hmore m (h m hm)

/-- A tag makes an object no deeper. -/
theorem depth_withTag (tag name : String) (ms : List (String × Json)) :
    (Document.ofJson (.object ((tag, .string name) :: ms))).depth =
      (Document.ofJson (.object ms)).depth := by
  simp [Document.ofJson, Document.ofMembers, Document.depth, Document.membersDepth]

end Documents

/-! ### Scanning

A bracket is entered only while there is room for it, and what stands inside is read
with one room less.  The three readers call each other, so the bound is shown of all of
them at once, by induction on the steps that they may still take.
-/

section Scanning

variable {room : Nat} {closed : Bool}

/-- An array takes up one bracket of the room, if there is one left. -/
theorem depth_entered_array {items : List Document} (h : ∀ d ∈ items, d.depth ≤ room - 1) :
    (if room = 0 then Document.tooDeep true closed else .array items closed).depth ≤ room := by
  by_cases hroom : room = 0
  · rw [if_pos hroom, Document.depth]
    omega
  · have hitems := itemsDepth_le.mpr h
    rw [if_neg hroom, Document.depth]
    omega

theorem depth_entered_object {members : List (Key × Document)}
    (h : ∀ m ∈ members, m.2.depth ≤ room - 1) :
    (if room = 0 then Document.tooDeep false closed else .object members closed).depth ≤ room := by
  by_cases hroom : room = 0
  · rw [if_pos hroom, Document.depth]
    omega
  · have hmembers := membersDepth_le.mpr h
    rw [if_neg hroom, Document.depth]
    omega

theorem depth_scanScalar (cs : List Char) : (scanScalar cs).node.depth = 0 := by
  unfold scanScalar
  split
  · rfl
  · rfl
  · rfl
  · split
    · rfl
    · split <;> rfl

/-- Nothing that is scanned is deeper than the room that there is for brackets. -/
theorem depth_scan_le (fuel : Nat) :
    (∀ room cs, (scanValue fuel room cs).node.depth ≤ room) ∧
      (∀ room cs, ∀ d ∈ (scanItems fuel room cs).node, d.depth ≤ room) ∧
        ∀ room cs, ∀ m ∈ (scanMembers fuel room cs).node, m.2.depth ≤ room := by
  induction fuel with
  | zero => simp [scanValue, scanItems, scanMembers, Document.depth]
  | succ fuel ih =>
      obtain ⟨hvalue, hitems, hmembers⟩ := ih
      refine ⟨fun room cs => ?_, fun room cs => ?_, fun room cs => ?_⟩
      · rw [scanValue.eq_def]
        -- A string and a scalar have no brackets; a container is entered with one room less.
        dsimp only
        split
        · split <;> exact Nat.zero_le _
        · refine depth_entered_array ?_
          split
          · simp
          · exact hitems _ _
        · refine depth_entered_object ?_
          split
          · simp
          · exact hmembers _ _
        · rw [depth_scanScalar]
          exact Nat.zero_le _
      · have hitem := hvalue room cs
        rw [scanItems]
        dsimp only
        split
        · simpa using hitem
        · split
          · simpa using hitem
          · exact List.forall_mem_cons.mpr ⟨hitem, hitems _ _⟩
        · simpa using hitem
      · have hbroken : Document.broken.depth ≤ room := Nat.zero_le _
        rw [scanMembers.eq_def]
        dsimp only
        split
        · split
          · simpa using hbroken
          · split
            · rename_i body _
              have hmember := hvalue room body
              split
              · simpa using hmember
              · split
                · simpa using hmember
                · exact List.forall_mem_cons.mpr ⟨hmember, hmembers _ _⟩
              · simpa using hmember
            · simpa using hbroken
        · simpa using hbroken

/-- **No text is read deeper than the limit.** -/
theorem depth_root_le (s : String) : (Text.ofString s).root.depth ≤ nestingLimit :=
  (depth_scan_le _).1 _ _

end Scanning

/-! ### Decoders

`Confines` speaks of any document, whether or not it comes from a text; for a text the
limit comes on top.  The scalars satisfy it because they are written without brackets.
For the containers the same step is taken each time: what the decoder made of a part is
no deeper than the part, and the part stands inside the bracket that is written again.
-/

variable {α β : Type}

/-- Whatever a decoder makes of a document nests no deeper, when it is written, than the
document. -/
def Confines (d : Decoder α) (write : α → Json) : Prop :=
  ∀ src doc a, d src doc = .ok a → (Document.ofJson (write a)).depth ≤ doc.depth

namespace Confines

variable {d : Decoder α} {write : α → Json}

/-- **What is read from a text nests no deeper than the limit.** -/
theorem depth_le (h : Confines d write) {s : String} {a : α} (hread : d.ofText s = .ok a) :
    (Document.ofJson (write a)).depth ≤ nestingLimit := by
  obtain ⟨b, hroot, hended⟩ := bind_eq_ok.mp hread
  obtain rfl := eq_of_ite_eq_ok hended
  exact Nat.le_trans (h _ _ _ hroot) (depth_root_le s)

/-- What is written without brackets is no deeper than anything. -/
theorem flat (h : ∀ a, (Document.ofJson (write a)).depth = 0) : Confines d write := by
  intro src doc a _
  rw [h a]
  exact Nat.zero_le _

theorem map {f : α → β} {write : β → Json} (h : Confines d fun a => write (f a)) :
    Confines (d.map f) write := by
  intro src doc b hb
  obtain ⟨a, ha, rfl⟩ := map_eq_ok.mp hb
  exact h src doc a ha

theorem withTag {members : α → List (String × Json)} (tag name : String)
    (h : Confines d fun a => .object (members a)) :
    Confines d fun a => .object ((tag, .string name) :: members a) := by
  intro src doc a ha
  rw [depth_withTag]
  exact h src doc a ha

theorem string : Confines Decoder.string Json.string := flat depth_string

theorem list (h : Confines d write) : Confines d.list (Json.list write) := by
  intro src doc xs hxs
  unfold Decoder.list at hxs
  split at hxs
  · rename_i items closed
    obtain ⟨ys, hys, hclosed⟩ := bind_eq_ok.mp hxs
    obtain rfl := eq_of_ite_eq_ok hclosed
    rw [Document.depth]
    refine depth_array_le.mpr ?_
    rw [List.forall_mem_map]
    intro x hx
    obtain ⟨item, hitem, hread⟩ := forall₂_mem_left (mapM_eq_ok.mp hys) hx
    exact Nat.le_trans (h src item x hread) (itemsDepth_le.mp (Nat.le_refl _) item hitem)
  · cases hxs

theorem texts : Confines Decoder.string.list Json.texts := string.list

theorem uint32 : Confines Decoder.uint32 fun n => .natural n.toNat := flat fun _ => rfl

theorem int32 : Confines Decoder.int32 fun n => .integer n.toInt := flat fun _ => rfl

theorem int64 : Confines Decoder.int64 fun n => .integer n.toInt := flat fun _ => rfl

theorem option (h : Confines d write) : Confines d.option (Json.option write) := by
  intro src doc o ho
  unfold Decoder.option at ho
  split at ho
  · rw [← Except.ok.inj ho]
    exact Nat.zero_le _
  · obtain ⟨a, ha, rfl⟩ := map_eq_ok.mp ho
    exact h src _ a ha

theorem pair {e : Decoder β} {write' : β → Json} (hd : Confines d write) (he : Confines e write') :
    Confines (d.pair e) fun p => .array [write p.1, write' p.2] := by
  intro src doc p hp
  unfold Decoder.pair at hp
  split at hp
  · dsimp only at hp
    split at hp
    · cases hp
    · obtain ⟨x, -, h⟩ := bind_eq_ok.mp hp
      cases h
    · rename_i first second rest
      obtain ⟨x, hx, h⟩ := bind_eq_ok.mp hp
      obtain ⟨y, hy, h⟩ := bind_eq_ok.mp h
      obtain rfl : (x, y) = p := by
        split at h
        · exact eq_of_ite_eq_ok h
        · cases h
      have hall := itemsDepth_le.mp (Nat.le_refl (Document.itemsDepth (first :: second :: rest)))
      rw [Document.depth]
      refine depth_array_le.mpr ?_
      simp only [List.forall_mem_cons, List.not_mem_nil, false_implies, implies_true, and_true]
      exact ⟨Nat.le_trans (hd src first x hx) (hall first (by simp)),
        Nat.le_trans (he src second y hy) (hall second (by simp))⟩
  · cases hp

theorem entries {κ : Type} {key : Source → Key → Except Problem κ} (name : κ → String)
    (h : Confines d write) :
    Confines (Decoder.entries key d) fun es => .object (es.map fun e => (name e.1, write e.2)) := by
  intro src doc es hes
  unfold Decoder.entries at hes
  split at hes
  · rename_i members closed
    obtain ⟨ys, hys, hclosed⟩ := bind_eq_ok.mp hes
    obtain rfl := eq_of_ite_eq_ok hclosed
    rw [Document.depth]
    refine depth_object_le.mpr ?_
    rw [List.forall_mem_map]
    intro e he
    obtain ⟨m, hm, hread⟩ := forall₂_mem_left (mapM_eq_ok.mp hys) he
    obtain ⟨k, -, hread⟩ := bind_eq_ok.mp hread
    obtain ⟨v, hv, hread⟩ := bind_eq_ok.mp hread
    obtain rfl : (k, v) = e := Except.ok.inj hread
    exact Nat.le_trans (h src m.2 v hv) (membersDepth_le.mp (Nat.le_refl _) m hm)
  · cases hes

/-- A map made of entries is no deeper than the entries. -/
theorem ofList {κ ν : Type} [Ord κ] [Std.TransOrd κ] [Std.LawfulEqOrd κ] {d : Decoder α}
    {f : α → List (κ × ν)} {member : κ × ν → String × Json}
    (h : Confines d fun a => .object ((f a).map member)) :
    Confines (d.map fun a => SortedMap.ofList (f a)) fun m => .object (m.entries.map member) := by
  refine map fun src doc a ha => Nat.le_trans (depth_object_mono fun m hm => ?_) (h src doc a ha)
  obtain ⟨e, he, rfl⟩ := List.mem_map.mp hm
  exact List.mem_map_of_mem (SortedMap.mem_of_mem_ofList he)

/-- A value without fields takes up one bracket. -/
theorem bare {a : α} (h : (Document.ofJson (write a)).depth ≤ 1) :
    Confines (Decoder.bare a) write := by
  intro src doc b hb
  unfold Decoder.bare at hb
  split at hb
  · rw [← Except.ok.inj hb, Document.depth]
    omega
  · split at hb
    · rw [← Except.ok.inj hb, Document.depth]
      omega
    · cases hb
  · cases hb

end Confines

/-! ### Records

A record is read member by member or element by element, and it is built field by field.
`Makes` follows the building.  For members it has to bring along an invariant of what
has been read so far, since the members of one record come in any order and those of the
fields before are mixed with those of the last one.
-/

namespace Record

section Field

variable {d : Decoder α} {absent : Absent α} {src : Source} {name : String}

/-- A member that a field takes is read by the decoder of the field. -/
theorem read_of_field_member {other : String} {doc : Document} {found found' : Option α}
    (h : (field name d absent).member src other doc found = .ok (some found')) :
    ∃ a, d src doc = .ok a ∧ found' = some a := by
  unfold field at h
  dsimp only at h
  split at h
  · split at h
    · cases h
    · obtain ⟨a, ha, hsome⟩ := map_eq_ok.mp h
      exact ⟨a, ha, (Option.some.inj hsome).symm⟩
  · cases h

/-- The value of a field was read, or is what an absent field means. -/
theorem found_of_field_finish {found : Option α} {a : α}
    (h : (field name d absent).finish found = .ok a) :
    found = some a ∨ absent = .default a ∨ absent = .implied a := by
  unfold field at h
  dsimp only at h
  split at h
  · exact .inl (congrArg some (Except.ok.inj h))
  · cases h
  · exact .inr (.inl (congrArg Absent.default (Except.ok.inj h)))
  · exact .inr (.inr (congrArg Absent.implied (Except.ok.inj h)))

/-- A field is the first element of an array, or has its default where the array has ended. -/
theorem read_of_field_elements {docs rest : List Document} {closed : Bool} {a : α}
    (h : (field name d absent).elements src docs closed = .ok (a, rest)) :
    (∃ doc, docs = doc :: rest ∧ d src doc = .ok a) ∨ rest = [] ∧ absent = .default a := by
  unfold field at h
  dsimp only at h
  split at h
  · obtain ⟨b, hb, hsame⟩ := map_eq_ok.mp h
    obtain ⟨rfl, rfl⟩ := Prod.mk.inj hsame
    exact .inl ⟨_, rfl, hb⟩
  · split at h
    · cases h
    · split at h
      · obtain ⟨rfl, rfl⟩ := Prod.mk.inj (Except.ok.inj h)
        exact .inr ⟨rfl, rfl⟩
      · cases h

end Field

/-- What a record makes of members, or of elements, that are no deeper than `n` has a property. -/
structure Makes (r : Record α) (n : Nat) (p : α → Prop) : Prop where
  /-- The property is prepared by an invariant of what has been read so far. -/
  members : ∃ holds : r.Progress → Prop, holds r.start ∧
    (∀ src name doc q q', doc.depth ≤ n → holds q → r.member src name doc q = .ok (some q') →
      holds q') ∧
    ∀ q a, holds q → r.finish q = .ok a → p a
  elements : ∀ src docs closed a rest, (∀ d ∈ docs, d.depth ≤ n) →
    r.elements src docs closed = .ok (a, rest) → p a ∧ ∀ d ∈ rest, d.depth ≤ n

namespace Makes

variable {n : Nat} {f : Record (α → β)} {r : Record α} {d : Decoder α} {write : α → Json}
  {absent : Absent α} {name : String}

theorem pure {p : α → Prop} {a : α} (h : p a) : Makes (Record.pure a) n p := by
  refine ⟨⟨fun _ => True, trivial, fun _ _ _ _ _ _ _ _ => trivial, fun q b _ hb => ?_⟩,
    fun src docs closed b rest hdocs hb => ?_⟩
  · rw [← Except.ok.inj hb]
    exact h
  · obtain ⟨rfl, rfl⟩ := Prod.mk.inj (Except.ok.inj hb)
    exact ⟨h, hdocs⟩

/-- **A field adds what is known of its decoder to what is known of the fields before it.** -/
theorem field {p : β → Prop}
    (hf : Makes f n fun g => ∀ a, (Document.ofJson (write a)).depth ≤ n → p (g a))
    (h : Confines d write)
    (habsent : ∀ a, absent = .default a ∨ absent = .implied a →
      (Document.ofJson (write a)).depth ≤ n) :
    Makes (f.seq (Record.field name d absent)) n p := by
  obtain ⟨⟨holds, hstart, hmember, hfinish⟩, helements⟩ := hf
  -- What was taken by the field itself is no deeper than `n`.
  refine ⟨⟨fun q => holds q.1 ∧ ∀ a, q.2 = some a → (Document.ofJson (write a)).depth ≤ n,
    ⟨hstart, fun a ha => by cases ha⟩, ?_, ?_⟩, ?_⟩
  · rintro src other doc ⟨q, found⟩ q' hdoc ⟨hq, hfound⟩ htaken
    obtain ⟨taken, hf, htaken⟩ := bind_eq_ok.mp htaken
    cases taken with
    | some s =>
        obtain rfl := Option.some.inj (Except.ok.inj htaken)
        exact ⟨hmember src other doc q s hdoc hq hf, hfound⟩
    | none =>
        obtain ⟨own, hown, hq'⟩ := map_eq_ok.mp htaken
        obtain ⟨found', rfl, rfl⟩ := Option.map_eq_some_iff.mp hq'
        obtain ⟨a, ha, rfl⟩ := read_of_field_member hown
        refine ⟨hq, fun b hb => ?_⟩
        obtain rfl : a = b := Option.some.inj hb
        exact Nat.le_trans (h src doc a ha) hdoc
  · rintro ⟨q, found⟩ b ⟨hq, hfound⟩ hb
    obtain ⟨g, hg, hb⟩ := bind_eq_ok.mp hb
    obtain ⟨a, ha, hb⟩ := bind_eq_ok.mp hb
    obtain rfl : g a = b := Except.ok.inj hb
    refine hfinish q g hq hg a ?_
    rcases found_of_field_finish ha with hread | hmissed
    · exact hfound a hread
    · exact habsent a hmissed
  · intro src docs closed b rest hdocs hb
    obtain ⟨⟨g, more⟩, hg, hb⟩ := bind_eq_ok.mp hb
    obtain ⟨⟨a, left⟩, ha, hb⟩ := bind_eq_ok.mp hb
    obtain ⟨rfl, rfl⟩ := Prod.mk.inj (Except.ok.inj hb)
    obtain ⟨hp, hmore⟩ := helements src docs closed g more hdocs hg
    rcases read_of_field_elements ha with ⟨doc, rfl, hread⟩ | ⟨rfl, hdefault⟩
    · rw [List.forall_mem_cons] at hmore
      exact ⟨hp a (Nat.le_trans (h src doc a hread) hmore.1), hmore.2⟩
    · exact ⟨hp a (habsent a (.inl hdefault)), by simp⟩

/-- A field that has to be given. -/
theorem required {p : β → Prop}
    (hf : Makes f n fun g => ∀ a, (Document.ofJson (write a)).depth ≤ n → p (g a))
    (h : Confines d write) : Makes (f.seq (Record.required name d)) n p :=
  hf.field h fun a ha => by simp at ha

/-- A field that may be absent. -/
theorem nullable {f : Record (Option α → β)} {p : β → Prop}
    (hf : Makes f n fun g => ∀ o, (Document.ofJson (Json.option write o)).depth ≤ n → p (g o))
    (h : Confines d write) : Makes (f.seq (Record.nullable name d)) n p := by
  refine hf.field h.option fun o ho => ?_
  obtain rfl : none = o := by simpa using ho
  exact Nat.zero_le _

/-- The invariant holds when all members have been read. -/
theorem readMembers {holds : r.Progress → Prop}
    (hmember : ∀ src name doc q q', doc.depth ≤ n → holds q →
      r.member src name doc q = .ok (some q') → holds q')
    {src : Source} {members : List (Key × Document)} (hdepth : ∀ m ∈ members, m.2.depth ≤ n)
    {q q' : r.Progress} (hq : holds q) (h : r.readMembers src members q = .ok q') : holds q' := by
  induction members generalizing q with
  | nil =>
      rw [← Except.ok.inj h]
      exact hq
  | cons m rest ih =>
      obtain ⟨key, doc⟩ := m
      rw [List.forall_mem_cons] at hdepth
      rw [Record.readMembers] at h
      split at h
      · obtain ⟨taken, htaken, h⟩ := bind_eq_ok.mp h
        cases taken with
        | some s => exact ih hdepth.2 (hmember src _ doc q s hdepth.1 hq htaken) h
        | none =>
            dsimp only at h
            split at h
            · exact ih hdepth.2 hq h
            · cases h
      · cases h

/-- **A record that is written as one more bracket around its fields is confined.** -/
theorem decoder (h : ∀ n, Makes r n fun a => (Document.ofJson (write a)).depth ≤ n + 1) :
    Confines r.decoder write := by
  intro src doc a ha
  unfold Record.decoder at ha
  split at ha
  · rename_i members closed
    obtain ⟨q, hq, ha⟩ := bind_eq_ok.mp ha
    obtain ⟨⟨holds, hstart, hmember, hfinish⟩, -⟩ := h (Document.membersDepth members)
    have hread := readMembers hmember (membersDepth_le.mp (Nat.le_refl _)) hstart hq
    split at ha
    · exact hfinish q a hread ha
    · cases ha
  · rename_i items closed
    obtain ⟨⟨b, rest⟩, hb, ha⟩ := bind_eq_ok.mp ha
    have hmakes := (h (Document.itemsDepth items)).elements src items closed b rest
      (itemsDepth_le.mp (Nat.le_refl _)) hb
    dsimp only at ha
    split at ha
    · obtain rfl := eq_of_ite_eq_ok ha
      exact hmakes.1
    · cases ha
  · cases ha

end Makes

end Record

/-! ### Tagged values

The tag may be any member of the object, so the members before it are set aside until it
is known which variant it names.  What is handed to the variant are members of the same
object, and so there is nothing deeper among them.
-/

section Tagged

variable {tag : String} {variants : List (String × Decoder α)} {write : α → Json} {src : Source}

/-- A tag names one of the variants. -/
theorem mem_of_readTag {doc : Document} {d : Decoder α}
    (h : Decoder.readTag variants src doc = .ok d) : ∃ v ∈ variants, v.2 = d := by
  have hname : ∀ name, Decoder.ofName variants name = .ok d → ∃ v ∈ variants, v.2 = d := by
    intro name hname
    unfold Decoder.ofName at hname
    cases hlookup : variants.lookup name with
    | none =>
        rw [hlookup] at hname
        cases hname
    | some e =>
        rw [hlookup] at hname
        obtain rfl : e = d := Except.ok.inj hname
        obtain ⟨before, after, rfl, -⟩ := List.lookup_eq_some_iff.mp hlookup
        exact ⟨(name, e), by simp, rfl⟩
  unfold Decoder.readTag at h
  split at h
  · exact hname _ h
  · split at h
    · rename_i i v hv
      obtain rfl := Except.ok.inj h
      split at hv
      · exact ⟨v, List.mem_of_getElem? hv, rfl⟩
      · cases hv
    · cases h
  · cases h

/-- What a tag finds is a variant, and what is set aside are members of the object. -/
theorem mem_of_splitTag {members others others' : List (Key × Document)}
    {found found' : Option (Decoder α)} (hfound : ∀ d, found = some d → ∃ v ∈ variants, v.2 = d)
    (h : Decoder.splitTag tag variants src members found others = .ok (found', others')) :
    (∀ d, found' = some d → ∃ v ∈ variants, v.2 = d) ∧
      ∀ m ∈ others', m ∈ members ∨ m ∈ others := by
  induction members generalizing found others with
  | nil =>
      rw [Decoder.splitTag.eq_def] at h
      obtain ⟨rfl, rfl⟩ := Prod.mk.inj (Except.ok.inj h)
      exact ⟨hfound, fun m hm => .inr (List.mem_reverse.mp hm)⟩
  | cons m rest ih =>
      obtain ⟨key, doc⟩ := m
      rw [Decoder.splitTag.eq_def] at h
      dsimp only at h
      split at h
      · split at h
        · split at h
          · cases h
          · obtain ⟨d, hd, h⟩ := bind_eq_ok.mp h
            have hsome : ∀ e, some d = some e → ∃ v ∈ variants, v.2 = e := by
              intro e he
              obtain rfl := Option.some.inj he
              exact mem_of_readTag hd
            obtain ⟨hvariant, hothers⟩ := ih hsome h
            exact ⟨hvariant, fun m hm => (hothers m hm).imp_left (List.mem_cons_of_mem _)⟩
        · split at h
          · obtain ⟨hvariant, hothers⟩ := ih hfound h
            refine ⟨hvariant, fun m hm => ?_⟩
            rcases hothers m hm with hm | hm
            · exact .inl (List.mem_cons_of_mem _ hm)
            · rcases List.mem_cons.mp hm with rfl | hm
              · exact .inl List.mem_cons_self
              · exact .inr hm
          · cases h
      · cases h

/-- **A tagged value is confined if every variant is.** -/
theorem Confines.tagged (h : ∀ v ∈ variants, Confines v.2 write) :
    Confines (Decoder.tagged tag variants) write := by
  intro src doc a ha
  unfold Decoder.tagged at ha
  split at ha
  · rename_i members closed
    obtain ⟨⟨found, others⟩, hsplit, ha⟩ := bind_eq_ok.mp ha
    obtain ⟨hvariant, hothers⟩ := mem_of_splitTag (fun d hd => by cases hd) hsplit
    dsimp only at ha
    split at ha
    · cases ha
    · cases found with
      | none => cases ha
      | some d =>
          obtain ⟨v, hv, rfl⟩ := hvariant d rfl
          refine Nat.le_trans (h v hv _ _ a ha) ?_
          rw [Document.depth, Document.depth, Nat.add_le_add_iff_right, membersDepth_le]
          intro m hm
          rcases hothers m hm with hm | hm
          · exact membersDepth_le.mp (Nat.le_refl _) m hm
          · simp at hm
  · cases ha
  · rename_i first rest closed
    obtain ⟨d, hd, ha⟩ := bind_eq_ok.mp ha
    obtain ⟨v, hv, rfl⟩ := mem_of_readTag hd
    split at ha
    · refine Nat.le_trans (h v hv _ _ a ha) ?_
      rw [Document.depth, Document.depth, Nat.add_le_add_iff_right, Document.itemsDepth]
      exact Nat.le_max_right _ _
    · cases ha
  · cases ha

end Tagged

end BytecodeIR.Json
