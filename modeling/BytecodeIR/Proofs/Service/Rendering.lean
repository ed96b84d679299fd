/-
Classes as they are sent and classes as they are listed.

A session answers for its classes in two ways, by one object that holds every class under
its name and by the listing of a single class.  Both cover the same names, and they
agree: what is read from the object under a name has the listing of the class.  It need
not be the class, because the sign and the payload of a NaN are lost on the way, but that
is all that is lost, and no listing shows it.

Sent objects are sorted.  This changes the order of members at every level, and for the
relations over blocks it puts the keys in the order of texts, with ten before two.
-/
import BytecodeIR.Proofs.Code.Codec.Canonical
import BytecodeIR.Proofs.Service.Transport

namespace BytecodeIR.Service

/-! ### Classes under their names -/

variable {s : Session} {i : Instance} {r : Request} {name : String}

/-- The object of all classes has their names in order, and under each the class with its members
sorted. -/
theorem Instance.classesJson_eq (i : Instance) :
    i.classesJson = .object (i.classes.entries.map fun e => (e.1, e.2.encode.sorted)) := by
  have hsorted : Json.sortedMembers (i.classes.entries.map fun e => (e.1, e.2.encode)) =
      i.classes.entries.map fun e => (e.1, e.2.encode.sorted) := by
    rw [Json.sortedMembers_eq_map, List.map_map]
    rfl
  have hincreasing : (i.classes.entries.map fun e => (e.1, e.2.encode.sorted)).Pairwise
      fun a b => compare a.1 b.1 = .lt := List.pairwise_map.mpr i.classes.increasing
  rw [Instance.classesJson, Code.encodeClasses, Json.sorted, hsorted, Json.sortMembers,
    SortedMap.entries_ofList hincreasing]

theorem Session.result_getClasses (hs : s.program = some i) (hr : r.operation = "get_classes") :
    s.result r = .ok i.classesJson := by
  unfold Session.result Instance.query
  rw [hs, hr]
  rfl

theorem Session.result_renderClass (hs : s.program = some i) (hr : r.operation = "render_class")
    (hname : r.text? 0 "name" = some name) :
    s.result r = match i.classes.get? name with
      | some c => .ok (.string c.listing)
      | none => .error (.lifting (.unknownClass name)) := by
  unfold Session.result Instance.query Request.firstText
  rw [hs, hr, hname]
  rfl

/-- **The object of all classes has exactly the names that a listing is answered for, each once, and
what is read from it under a name has that listing.** -/
theorem classes_match_listings (hs : s.program = some i) : ∃ members,
    (∀ r : Request, r.operation = "get_classes" → s.result r = .ok (.object members)) ∧
      (members.map (·.1)).Nodup ∧
      ∀ (r : Request) (name : String), r.operation = "render_class" →
        r.text? 0 "name" = some name →
          ((∃ j, (name, j) ∈ members) ↔ ∃ v, s.result r = .ok v) ∧
            ∀ j, (name, j) ∈ members → ∃ c, Code.Class.decoder.ofJson j = .ok c ∧
              s.result r = .ok (.string c.listing) := by
  have hmem : ∀ name j, (name, j) ∈ i.classes.entries.map (fun e => (e.1, e.2.encode.sorted)) ↔
      ∃ c, i.classes.get? name = some c ∧ j = c.encode.sorted := by
    intro name j
    rw [List.mem_map]
    constructor
    · intro h
      obtain ⟨⟨name', c⟩, hc, heq⟩ := h
      obtain ⟨rfl, rfl⟩ := Prod.mk.inj heq
      exact ⟨c, SortedMap.get?_eq_some.mpr hc, rfl⟩
    · intro h
      obtain ⟨c, hc, rfl⟩ := h
      exact ⟨(name, c), SortedMap.get?_eq_some.mp hc, rfl⟩
  refine ⟨_, fun r hr => (s.result_getClasses hs hr).trans (congrArg _ i.classesJson_eq), ?_,
    fun r name hr hname => ⟨?_, fun j hj => ?_⟩⟩
  · rw [List.map_map]
    exact i.classes.nodup_keys
  · simp only [hmem, s.result_renderClass hs hr hname]
    cases i.classes.get? name with
    | none => simp
    | some c => simp
  · obtain ⟨c, hc, rfl⟩ := (hmem name j).mp hj
    refine ⟨c.canonical, (Code.Class.recovers_canonical (by decide) c).ofJson_sorted, ?_⟩
    rw [s.result_renderClass hs hr hname, hc, c.listing_canonical]

/-- A method that adds a NaN with a sign and a payload to negative infinity.  Ten stands before two
in its relation over blocks when that is sent. -/
def blurred : Code.Method where
  className := "Spectrum"
  name := "blur"
  params := []
  returnType := "double"
  attributes := [.isPublic]
  exceptions := []
  blocks := [⟨⟨0⟩, ⟨0⟩, [⟨⟨0⟩, 0, .giveBack (.ofExpr (.binary "double" .add
    (.of (.doubleConstant "double" ⟨0xfff8000000000001⟩))
    (.of (.doubleConstant "double" (.infinite true)))))⟩]⟩]
  successors := .ofList [(⟨2⟩, [⟨10⟩]), (⟨10⟩, [⟨2⟩, ⟨2⟩])]
  exceptionalPredecessors := ∅

/-- A session that holds the class of `blurred`. -/
def spectrum : Session :=
  ⟨some ⟨.ofList [("Spectrum", ⟨"Spectrum", "java.lang.Object", [], [], [blurred], []⟩)],
    ⟨["Spectrum"], [], []⟩⟩, false⟩

/-- The NaN loses its sign and its payload on the way, which the listing does not show. -/
theorem classes_match_listings_spectrum : ∃ members j c,
    spectrum.result (.ofOperation "get_classes") = .ok (.object members) ∧
      ("Spectrum", j) ∈ members ∧ Code.Class.decoder.ofJson j = .ok c ∧
        spectrum.result ((Request.ofOperation "render_class").arg (.string "Spectrum")) =
          .ok (.string c.listing) := by
  obtain ⟨members, hall, -, hmatch⟩ := classes_match_listings (s := spectrum) rfl
  obtain ⟨hnames, hlistings⟩ := hmatch ((Request.ofOperation "render_class").arg
    (.string "Spectrum")) "Spectrum" rfl rfl
  obtain ⟨j, hj⟩ := hnames.mpr ⟨_, rfl⟩
  obtain ⟨c, hread, hlisting⟩ := hlistings j hj
  exact ⟨members, j, c, hall _ rfl, hj, hread, hlisting⟩

end BytecodeIR.Service
