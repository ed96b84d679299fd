/-
What a record needs to be recovered from an object.

A record is several fields that read one object together: every member is offered
to the fields in turn, and one that no field takes is passed over.  So a record
recovers a value if each of its members is taken by the field that it is meant for,
which is the case as soon as no two names agree, and then the order of the members
does not matter.  `Reads` keeps account of the names while fields are added, and the
agreement is checked once, of the whole list.  A field with a default may have no
member, but it has a name all the same, so the names are counted by field and not by
member.

A tagged value is a record with a tag, which is written in front and may stand
anywhere.  The tag chooses the variant and the other members are handed to it, so tags
that are read from one object must not clash with one another or with a field.
-/
import BytecodeIR.Json.Record
import BytecodeIR.Proofs.Json.Decoder

namespace BytecodeIR.Json

variable {α β : Type} {written : Prop}

/-! ### Members that a record takes

Progress on a record is progress on each of its fields, and a member moves one of them
on.  That no other field takes the member is where distinct names come in.
-/

namespace Record

/-- A record takes every one of some members, from one state of it to another. -/
inductive Takes (r : Record α) (src : Source) :
    List (String × Json) → r.Progress → r.Progress → Prop where
  | nil {p : r.Progress} : Takes r src [] p p
  | cons {name : String} {j : Json} {ms : List (String × Json)} {p q s : r.Progress}
      (member : r.member src name (.ofJson j) p = .ok (some q)) (rest : Takes r src ms q s) :
      Takes r src ((name, j) :: ms) p s

section Field

variable {d : Decoder α} {absent : Absent α} {src : Source} {name : String} {doc : Document} {a : α}

theorem field_member_self (h : d src doc = .ok a) :
    (field name d absent).member src name doc (field name d absent).start = .ok (some (some a)) :=
  (if_pos rfl).trans (map_eq_ok.mpr ⟨a, h, rfl⟩)

theorem field_member_other {other : String} (h : other ≠ name)
    (p : (field name d absent).Progress) :
    (field name d absent).member src other doc p = .ok none := if_neg h

end Field

section Steps

variable {f : Record (α → β)} {r : Record α} {src : Source} {name : String} {doc : Document}

/-- What the first of two records takes is not offered to the second. -/
theorem seq_member_left {p q : f.Progress} (s : r.Progress)
    (h : f.member src name doc p = .ok (some q)) :
    (f.seq r).member src name doc (p, s) = .ok (some (q, s)) := bind_eq_ok.mpr ⟨some q, h, rfl⟩

theorem seq_member_right {p : f.Progress} {s : r.Progress}
    (h : f.member src name doc p = .ok none) :
    (f.seq r).member src name doc (p, s) =
      (r.member src name doc s).map (·.map fun q => (p, q)) := by
  show (f.member src name doc p >>= _) = _
  rw [h]
  rfl

variable {ms more : List (String × Json)}

/-- A member of another name than those of some fields and of one more is taken by none of them. -/
theorem seq_field_others {d : Decoder α} {absent : Absent α} {names : List String} {own : String}
    (h : ∀ other ∉ names, ∀ doc p, f.member src other doc p = .ok none) {other : String}
    (hother : other ∉ names ++ [own]) (doc : Document) (p : (f.seq (field own d absent)).Progress) :
    (f.seq (field own d absent)).member src other doc p = .ok none := by
  rw [List.mem_append, List.mem_singleton, not_or] at hother
  obtain ⟨hnames, hown⟩ := hother
  obtain ⟨p, s⟩ := p
  rw [seq_member_right (h other hnames _ _), field_member_other hown]
  rfl

theorem takes_append {p s : r.Progress} :
    Takes r src (ms ++ more) p s ↔ ∃ q, Takes r src ms p q ∧ Takes r src more q s := by
  constructor
  · intro h
    induction ms generalizing p with
    | nil => exact ⟨p, .nil, h⟩
    | cons m ms ih =>
      cases h with
      | cons member rest =>
        obtain ⟨q, hms, hmore⟩ := ih rest
        exact ⟨q, .cons member hms, hmore⟩
  · intro h
    obtain ⟨q, hms, hmore⟩ := h
    induction hms with
    | nil => exact hmore
    | cons member _ ih => exact .cons member (ih hmore)

theorem Takes.seq {p q : f.Progress} (h : Takes f src ms p q) (s : r.Progress) :
    Takes (f.seq r) src ms (p, s) (q, s) := by
  induction h with
  | nil => exact .nil
  | cons member _ ih => exact .cons (seq_member_left s member) ih

/-- Members that are taken are read, and none is passed over. -/
theorem Takes.readMembers {p q : r.Progress} (h : Takes r src ms p q) :
    r.readMembers src (Document.ofMembers ms) p = .ok q := by
  induction h with
  | nil => rfl
  | cons member _ ih => exact bind_eq_ok.mpr ⟨_, member, ih⟩

end Steps

/-! ### Reading a record field by field -/

/-- A record of fields with some names makes a value of the members of an object. -/
structure Reads (written : Prop) (r : Record α) (src : Source) (names : List String)
    (ms : List (String × Json)) (a : α) : Prop where
  readable : written → ∀ m ∈ ms, m.2.Readable
  distinct : ∀ m ∈ ms, m.2.Distinct
  /-- Every member is that of a field, and no field has two. -/
  named : (ms.map (·.1)).Sublist names
  /-- The members are taken if no two fields have one name, and make up the value. -/
  takes : names.Nodup → ∀ {os}, RearrangedMembers ms os →
    ∃ p, Takes r src os r.start p ∧ r.finish p = .ok a
  /-- A member of another name is not taken. -/
  others : ∀ name ∉ names, ∀ doc p, r.member src name doc p = .ok none

namespace Reads

variable {f : Record (α → β)} {g : α → β} {r : Record α} {d : Decoder α} {src : Source}
  {names : List String} {ms : List (String × Json)} {name : String} {j : Json} {a : α}
  {absent : Absent α}

theorem pure (a : α) : Reads written (Record.pure a) src [] [] a := by
  constructor
  case readable => simp
  case distinct => simp
  case named => exact .refl _
  case takes =>
    intro _ os hos
    obtain rfl := hos.eq_nil
    exact ⟨(), .nil, rfl⟩
  case others => exact fun _ _ _ _ => rfl

/-- **A field adds its member to those of the fields before it.** -/
theorem field (hf : Reads written f src names ms g) (h : Recovers written d src j a) :
    Reads written (f.seq (Record.field name d absent)) src (names ++ [name]) (ms ++ [(name, j)])
      (g a) := by
  constructor
  case readable =>
    intro hw
    simp only [List.forall_mem_append, List.forall_mem_singleton]
    exact ⟨hf.readable hw, h.readable hw⟩
  case distinct =>
    simp only [List.forall_mem_append, List.forall_mem_singleton]
    exact ⟨hf.distinct, h.distinct⟩
  case named =>
    rw [List.map_append]
    exact hf.named.append (.refl _)
  case takes =>
    intro hnodup os hos
    obtain ⟨hnames, -, hdisjoint⟩ := List.nodup_append.mp hnodup
    have hname : name ∉ names := fun hmem => hdisjoint _ hmem name (by simp) rfl
    -- Those of the fields before it may stand on both sides of the member.
    obtain ⟨l, r, i, rfl, hi, hothers⟩ := hos.split
    rw [List.append_nil] at hothers
    obtain ⟨p, htakes, hfinish⟩ := hf.takes hnames hothers
    obtain ⟨q, hl, hr⟩ := takes_append.mp htakes
    have hown : (f.seq (Record.field name d absent)).member src name (.ofJson i)
        (q, (Record.field name d absent).start) = .ok (some (q, some a)) := by
      rw [seq_member_right (hf.others name hname _ _), field_member_self (h.reads hi)]
      rfl
    exact ⟨(p, some a), takes_append.mpr ⟨_, hl.seq _, .cons hown (hr.seq _)⟩,
      bind_eq_ok.mpr ⟨g, hfinish, bind_eq_ok.mpr ⟨a, rfl, rfl⟩⟩⟩
  case others => exact fun other hother doc p => seq_field_others hf.others hother doc p

/-- **A field with a default adds nothing to the members of the fields before it.** -/
theorem skip (hf : Reads written f src names ms g) :
    Reads written (f.seq (Record.field name d (.default a))) src (names ++ [name]) ms (g a) := by
  constructor
  case readable => exact hf.readable
  case distinct => exact hf.distinct
  case named => exact hf.named.trans (List.sublist_append_left _ _)
  case takes =>
    intro hnodup os hos
    obtain ⟨p, htakes, hfinish⟩ := hf.takes hnodup.of_append_left hos
    exact ⟨_, htakes.seq _, bind_eq_ok.mpr ⟨g, hfinish, rfl⟩⟩
  case others => exact fun other hother doc p => seq_field_others hf.others hother doc p

/-- **A record is recovered from its members if no two fields have one name.** -/
theorem recovers (h : Reads written r src names ms a) (hnodup : names.Nodup) :
    Recovers written r.decoder src (.object ms) a := by
  refine ⟨fun hw => readable_object.mpr (h.readable hw),
    distinct_object.mpr ⟨hnodup.sublist h.named, h.distinct⟩, fun hi => ?_⟩
  obtain ⟨os, rfl, hos⟩ := rearranged_object.mp hi
  obtain ⟨p, htakes, hfinish⟩ := h.takes hnodup hos
  exact bind_eq_ok.mpr ⟨p, htakes.readMembers, hfinish⟩

/-- The same for members that are written down in another way. -/
theorem recovers_of_eq {ms' : List (String × Json)} (h : Reads written r src names ms a)
    (hms : ms = ms') (hnodup : names.Nodup) : Recovers written r.decoder src (.object ms') a := by
  subst hms
  exact h.recovers hnodup

end Reads

end Record

/-! ### Tagged values

The tag may stand anywhere among the members, and the others are put together again
without it, in the order in which they came.
-/

section Tagged

variable {tag name : String} {variants : List (String × Decoder α)} {d : Decoder α} {src : Source}
  {ms : List (String × Json)} {a : α}

/-- Members of other names than the tag are all set aside. -/
theorem splitTag_append (h : tag ∉ ms.map (·.1)) {rest : List (Key × Document)}
    {found : Option (Decoder α)} {others : List (Key × Document)} :
    Decoder.splitTag tag variants src (Document.ofMembers ms ++ rest) found others =
      Decoder.splitTag tag variants src rest found ((Document.ofMembers ms).reverse ++ others) := by
  induction ms generalizing others with
  | nil => rfl
  | cons m ms ih =>
      obtain ⟨other, j⟩ := m
      rw [List.map_cons, List.mem_cons, not_or] at h
      have hstep : Decoder.splitTag tag variants src (Document.ofMembers ((other, j) :: ms) ++ rest)
          found others = Decoder.splitTag tag variants src (Document.ofMembers ms ++ rest) found
            ((Document.keyOf other, Document.ofJson j) :: others) := by
        rw [Document.ofMembers, List.cons_append, Decoder.splitTag.eq_def]
        simp only [Document.keyOf, if_neg (Ne.symm h.1), isReadable_ofJson, if_true]
      rw [hstep, ih h.2, Document.ofMembers, List.reverse_cons, List.append_assoc]
      rfl

/-- The tag is found wherever it stands, and the other members keep their order. -/
theorem splitTag_ofMembers {l r : List (String × Json)} (hl : tag ∉ l.map (·.1))
    (hr : tag ∉ r.map (·.1)) (hvariant : variants.lookup name = some d) :
    Decoder.splitTag tag variants src (Document.ofMembers (l ++ (tag, .string name) :: r)) none [] =
      .ok (some d, Document.ofMembers (l ++ r)) := by
  have hname : Decoder.readTag variants src (.string name) = .ok d := by
    have hof : Decoder.ofName variants name = .ok d := by
      unfold Decoder.ofName
      rw [hvariant]
    cases src with
    | text => exact hof
    | buffered => exact hof
    | tree => exact hof
  have hend : ∀ others, Decoder.splitTag tag variants src (Document.ofMembers r) (some d) others =
      .ok (some d, others.reverse ++ Document.ofMembers r) := by
    intro others
    rw [← List.append_nil (Document.ofMembers r), splitTag_append hr, Decoder.splitTag.eq_def]
    simp
  rw [ofMembers_append, splitTag_append hl, Document.ofMembers, Decoder.splitTag.eq_def]
  simp only [Document.keyOf, if_true, Document.ofJson]
  refine bind_eq_ok.mpr ⟨d, hname, ?_⟩
  rw [hend, ofMembers_append]
  simp

/-- **A tagged value is recovered if its variant recovers it from the other members.** -/
theorem Recovers.tagged (h : Recovers written d .buffered (.object ms) a)
    (hvariant : variants.lookup name = some d) (htag : tag ∉ ms.map (·.1)) :
    Recovers written (Decoder.tagged tag variants) src (.object ((tag, .string name) :: ms)) a := by
  constructor
  case readable =>
    intro hw
    have hms := readable_object.mp (h.readable hw)
    exact readable_object.mpr (List.forall_mem_cons.mpr ⟨trivial, hms⟩)
  case distinct =>
    obtain ⟨hnames, hms⟩ := distinct_object.mp h.distinct
    exact distinct_object.mpr ⟨List.nodup_cons.mpr ⟨htag, hnames⟩,
      List.forall_mem_cons.mpr ⟨trivial, hms⟩⟩
  case reads =>
    intro i hi
    obtain ⟨os, rfl, hos⟩ := rearranged_object.mp hi
    obtain ⟨l, r, i, rfl, hstring, hothers⟩ := RearrangedMembers.split (a := []) hos
    rw [List.nil_append] at hothers
    cases hstring
    have hnone : tag ∉ l.map (·.1) ∧ tag ∉ r.map (·.1) := by
      rwa [hothers.names.mem_iff, List.map_append, List.mem_append, not_or] at htag
    exact bind_eq_ok.mpr ⟨_, splitTag_ofMembers hnone.1 hnone.2 hvariant,
      h.reads (rearranged_object.mpr ⟨_, rfl, hothers⟩)⟩

/-- **A record after a tag is recovered if no two names agree, the tag's included.** -/
theorem Record.Reads.tagged {r : Record α} {names : List String}
    (h : Reads written r .buffered names ms a) (hvariant : variants.lookup name = some r.decoder)
    (hnames : (tag :: names).Nodup) :
    Recovers written (Decoder.tagged tag variants) src (.object ((tag, .string name) :: ms)) a := by
  obtain ⟨htag, hnames⟩ := List.nodup_cons.mp hnames
  exact .tagged (h.recovers hnames) hvariant fun hmem => htag (h.named.subset hmem)

/-- A value without fields is recovered from any object. -/
theorem Recovers.bare (a : α) : Recovers written (Decoder.bare a) src (.object []) a := by
  refine ⟨fun _ => readable_object.mpr (by simp), distinct_object.mpr (by simp), fun hi => ?_⟩
  obtain ⟨os, rfl, -⟩ := rearranged_object.mp hi
  rfl

end Tagged

end BytecodeIR.Json
