/-
How a result travels back does not change it.

A query is answered in two steps.  The first finds the result, and nothing about
the transport is looked at in it.  The second sends the result back, and it can only
fail by a write that fails.  So what is sent, whole or as a text or in parts, is one
and the same value under every transport, and so is what is saved.

A result that is split is put together again by appending its parts.  For an object
this is the union of the parts, since no name stands in it twice: the only query
whose result is an object sorts it by the names.  No query has the result null, which a
reader could not tell from no result at all.
-/
import BytecodeIR.Proofs.Files.Tree
import BytecodeIR.Proofs.Json.Order
import BytecodeIR.Proofs.Lifting
import BytecodeIR.Service.Session

namespace BytecodeIR.Service

/-! ### Splitting loses nothing -/

/-- Pieces put together again are the list that was cut. -/
theorem flatten_piecesOf {α : Type} (more : Nat) (xs : List α) :
    (piecesOf more xs).flatten = xs := by
  induction xs using piecesOf.induct more with
  | case1 => rw [piecesOf, List.flatten_nil]
  | case2 a rest ih =>
      rw [piecesOf, List.flatten_cons, ih, List.cons_append, List.take_append_drop]

@[simp] theorem flatten_cut {α : Type} (parts : Nat) (xs : List α) : (cut parts xs).flatten = xs :=
  flatten_piecesOf _ xs

/-! ### What frames carry -/

/-- Some frame reports a failure. -/
def Failed (frames : List Frame) : Prop := ∃ f ∈ frames, f.isFailed = true

/-- No name stands twice in a value that is an object. -/
def DistinctNames (v : Json) : Prop := ∀ members, v = .object members → (members.map (·.1)).Nodup

/-- Frames that carry a value: they hold it, its text, both, or its parts in order. -/
inductive Carries (v : Json) : List Frame → Prop
  | result : Carries v [.unit (some v) none]
  | text : Carries v [.unit none (some v.text)]
  | both : Carries v [.unit (some v) (some v.text)]
  | list {parts : List (List Json)} (h : v = .array parts.flatten) :
      Carries v (.begin .list :: parts.map (fun js => .part (.array js)) ++ [.finish])
  /-- The parts of an object share no name, so that appending them is uniting them. -/
  | map {parts : List (List (String × Json))} (h : v = .object parts.flatten)
      (hnames : (parts.flatten.map (·.1)).Nodup) :
      Carries v (.begin .map :: parts.map (fun ms => .part (.object ms)) ++ [.finish])

variable {t : Transport} {v : Json} {files files' : Tree} {frames : List Frame}

theorem Carries.not_failed (h : Carries v frames) : ¬ Failed frames := by
  cases h <;> simp [Failed, Frame.isFailed]

/-- The write that the transport asks for fails. -/
def Transport.SaveFails (t : Transport) (v : Json) (files : Tree) : Prop :=
  ∃ path e, t.saveTo = some path ∧ files.write path v.text = .error e

/-- What a transport makes of a result: the frames that are sent and the files after it. -/
structure Delivered (t : Transport) (v : Json) (files files' : Tree) (frames : List Frame) :
    Prop where
  silent : t.sendsBack = false → frames = [.done]
  carries : t.sendsBack = true → Carries v frames
  unsaved : t.saveTo = none → files' = files
  saved : ∀ path, t.saveTo = some path → Tree.Replaces files files' path v.text

theorem Delivered.not_failed (h : Delivered t v files files' frames) : ¬ Failed frames := by
  cases hsends : t.sendsBack with
  | true => exact (h.carries hsends).not_failed
  | false => simp [h.silent hsends, Failed, Frame.done, Frame.isFailed]

/-! ### Sending a result back

A result that is saved travels as its text or not at all.  One that is not saved is sent
in parts if parts are asked for, it can be split and its text is not asked for;
otherwise it is sent whole.  Saving is the only step that can fail, and the only one
that changes a file.
-/

/-- A result that is split is carried in its parts. -/
theorem carries_of_split (hv : DistinctNames v) {parts : Nat} (h : split? v parts = some frames) :
    Carries v frames := by
  unfold split? at h
  split at h
  · rename_i members
    rw [← Option.some.inj h]
    exact .map (by rw [flatten_cut]) (by rw [flatten_cut]; exact hv members rfl)
  · rw [← Option.some.inj h]
    exact .list (by rw [flatten_cut])
  · cases h

/-- A result that is sent whole is carried as itself, as its text, or as both. -/
theorem carries_whole (h : t.sendsBack = true) :
    Carries v [.unit (if t.returnResult then some v else none)
      (if t.returnText then some v.text else none)] := by
  unfold Transport.sendsBack at h
  cases hresult : t.returnResult <;> cases htext : t.returnText
  · rw [hresult, htext] at h
    cases h
  · exact .text
  · exact .result
  · exact .both

/-- A result that is saved goes into its file first, and is then sent back as a text. -/
theorem respond_saved {path : Path} (hsave : t.saveTo = some path) :
    respond t v files = ((files.write path v.text).mapError .file).map fun written =>
      ([if t.sendsBack then .unit none (some v.text) else .done], written) := by
  unfold respond
  rw [hsave]
  dsimp only
  cases files.write path v.text <;> rfl

/-- A result that is not saved is always sent back, and no file changes. -/
theorem respond_unsaved (files : Tree) (hsave : t.saveTo = none) (hv : DistinctNames v) :
    ∃ frames, respond t v files = .ok (frames, files) ∧
      (t.sendsBack = false → frames = [.done]) ∧ (t.sendsBack = true → Carries v frames) := by
  unfold respond
  rw [hsave]
  dsimp only
  by_cases hsends : t.sendsBack = true
  · rw [if_neg (by simpa using hsends)]
    by_cases hwhole : t.parts = 0 ∨ t.returnText = true
    · rw [if_pos hwhole]
      exact ⟨_, rfl, fun h => absurd hsends (by simp [h]), fun _ => carries_whole hsends⟩
    · rw [if_neg hwhole]
      refine ⟨_, rfl, fun h => absurd hsends (by simp [h]), fun _ => ?_⟩
      cases hsplit : split? v t.parts with
      | none => exact carries_whole hsends
      | some parts => exact carries_of_split hv hsplit
  · rw [if_pos hsends]
    exact ⟨_, rfl, fun _ => rfl, fun h => absurd h hsends⟩

/-- **Sending a result back fails only if saving it does.** -/
theorem exists_respond_error (hv : DistinctNames v) :
    (∃ f, respond t v files = .error f) ↔ t.SaveFails v files := by
  unfold Transport.SaveFails
  cases hsave : t.saveTo with
  | none =>
      obtain ⟨frames, hrespond, -⟩ := respond_unsaved files hsave hv
      rw [hrespond]
      simp
  | some path =>
      rw [respond_saved hsave]
      cases hwrite : files.write path v.text <;> simp [Except.mapError, Except.map, hwrite]

/-- **What is sent back carries the result, and what is saved is its text.** -/
theorem delivered_of_respond (hv : DistinctNames v)
    (h : respond t v files = .ok (frames, files')) : Delivered t v files files' frames := by
  cases hsave : t.saveTo with
  | none =>
      obtain ⟨sent, hrespond, hsilent, hcarries⟩ := respond_unsaved files hsave hv
      obtain ⟨rfl, rfl⟩ := Prod.mk.inj (Except.ok.inj (hrespond.symm.trans h))
      exact ⟨hsilent, hcarries, fun _ => rfl, fun path hpath => by rw [hsave] at hpath; cases hpath⟩
  | some path =>
      rw [respond_saved hsave] at h
      obtain ⟨written, hwrite, hsent⟩ := map_eq_ok.mp h
      obtain ⟨rfl, rfl⟩ := Prod.mk.inj hsent
      refine ⟨fun hsilent => ?_, fun hsends => ?_, fun hnone => ?_, fun path' hpath => ?_⟩
      · rw [hsilent]
        rfl
      · rw [if_pos hsends]
        exact .text
      · rw [hsave] at hnone
        cases hnone
      · obtain rfl : path = path' := Option.some.inj (hsave.symm.trans hpath)
        exact Tree.replaces_of_write (mapError_eq_ok.mp hwrite)

/-! ### Finding a result

What a query finds is a text, an array of texts or an object whose members were sorted.
So it is in order whatever was asked, and an object in order has no name twice.
-/

/-- What a query comes to in a session. -/
def Session.result (s : Session) (r : Request) : Except Fault Json :=
  match s.program with
  | none => .error .noProgram
  | some i => i.query r

theorem distinctNames_of_ordered (h : v.Ordered) : DistinctNames v := by
  rintro members rfl
  exact (Json.distinct_object.mp h.distinct).1

/-- The answer to a query is not null, and its objects are in order. -/
theorem Instance.ordered_of_query {i : Instance} {r : Request} (h : i.query r = .ok v) :
    v.Ordered ∧ v ≠ .null := by
  unfold Instance.query at h
  split at h
  · rw [← Except.ok.inj h]
    exact ⟨Json.ordered_sorted _, by simp [classesJson, Code.encodeClasses, Json.sorted]⟩
  · obtain ⟨name, -, h⟩ := bind_eq_ok.mp h
    split at h
    · rw [← Except.ok.inj h]
      exact ⟨Json.ordered_array.mpr (List.forall_mem_map.mpr fun s _ => rfl), Json.noConfusion⟩
    · cases h
  · obtain ⟨name, -, h⟩ := bind_eq_ok.mp h
    split at h
    · rw [← Except.ok.inj h]
      exact ⟨rfl, Json.noConfusion⟩
    · cases h
  · cases h

theorem Session.ordered_of_result {s : Session} {r : Request} (h : s.result r = .ok v) :
    v.Ordered ∧ v ≠ .null := by
  unfold Session.result at h
  split at h
  · cases h
  · exact Instance.ordered_of_query h

theorem Session.distinctNames_of_result {s : Session} {r : Request} (h : s.result r = .ok v) :
    DistinctNames v := distinctNames_of_ordered (ordered_of_result h).1

/-! ### Answering a query -/

/-- A request that neither begins nor ends a session is a query. -/
structure Request.IsQuery (r : Request) : Prop where
  not_init : r.operation ≠ "__init__"
  not_exit : r.operation ≠ "__exit"

theorem failed_failure (r : Request) (f : Fault) : Failed (r.failure f) :=
  ⟨_, List.mem_singleton_self _, rfl⟩

namespace Session

variable (s : Session) {r : Request} (files)

theorem answer_eq (r : Request) :
    s.answer r files = s.result r >>= fun v => respond r.transport v files := by
  unfold answer result
  cases s.program <;> rfl

/-- The answer to a query is its result as the transport delivers it. -/
theorem delivered_of_answer (h : s.answer r files = .ok (frames, files')) :
    ∃ v, s.result r = .ok v ∧ Delivered r.transport v files files' frames := by
  rw [answer_eq] at h
  obtain ⟨v, hresult, hrespond⟩ := bind_eq_ok.mp h
  exact ⟨v, hresult, delivered_of_respond (s.distinctNames_of_result hresult) hrespond⟩

/-- There is no answer exactly if there is no result or the result cannot be saved. -/
theorem exists_answer_error : (∃ f, s.answer r files = .error f) ↔
    (∃ f, s.result r = .error f) ∨ ∃ v, s.result r = .ok v ∧ r.transport.SaveFails v files := by
  rw [answer_eq]
  cases hresult : s.result r with
  | error f => simp [bind, Except.bind]
  | ok v =>
      show (∃ f, respond r.transport v files = .error f) ↔ _
      rw [exists_respond_error (s.distinctNames_of_result hresult)]
      simp

/-- A query leaves the session as it is. -/
theorem handle_query (hr : r.IsQuery) :
    s.handle r files = match s.answer r files with
      | .ok (frames, files) => (frames, s, files)
      | .error f => (r.failure f, s, files) := by
  unfold handle
  split
  · exact absurd ‹_› hr.not_exit
  · exact absurd ‹_› hr.not_init
  · rfl

/-- A query that has an answer is sent it, and one that has none is answered by a failure. -/
theorem handle_query_cases (hr : r.IsQuery) :
    (∃ frames files', s.answer r files = .ok (frames, files') ∧
      s.handle r files = (frames, s, files') ∧ ¬ Failed frames) ∨
    ∃ f, s.answer r files = .error f ∧ s.handle r files = (r.failure f, s, files) := by
  rw [s.handle_query files hr]
  cases hanswer : s.answer r files with
  | ok sent =>
      obtain ⟨v, -, hdelivered⟩ := s.delivered_of_answer files hanswer
      exact .inl ⟨_, _, rfl, rfl, hdelivered.not_failed⟩
  | error f => exact .inr ⟨f, rfl, rfl⟩

/-- A query is answered by a failure exactly if it has no result or the result cannot be saved. -/
theorem failed_query_iff (hr : r.IsQuery) :
    Failed (s.handle r files).1 ↔
      (∃ f, s.result r = .error f) ∨ ∃ v, s.result r = .ok v ∧ r.transport.SaveFails v files := by
  rw [← s.exists_answer_error files]
  rcases s.handle_query_cases files hr with ⟨frames, files', hanswer, hhandle, hsent⟩ |
    ⟨f, hanswer, hhandle⟩
  · rw [hhandle, hanswer]
    simp [hsent]
  · rw [hhandle, hanswer]
    simp [failed_failure]

/-- What a query sends back, if no failure, is its result as the transport delivers it. -/
theorem delivered_of_query (hr : r.IsQuery) (h : ¬ Failed (s.handle r files).1) :
    ∃ v, s.result r = .ok v ∧
      Delivered r.transport v files (s.handle r files).2.2 (s.handle r files).1 := by
  rcases s.handle_query_cases files hr with ⟨frames, files', hanswer, hhandle, -⟩ | ⟨f, -, hhandle⟩
  · rw [hhandle]
    exact s.delivered_of_answer files hanswer
  · rw [hhandle] at h
    exact absurd (failed_failure r f) h

end Session

/-- **Under every transport a query has one result.  What is sent is this result or its text or its
parts, what is saved is its text and nothing else is changed, and a query that fails under one
transport fails under every other, unless what fails is the write that saves its result.** -/
theorem handle_delivers (s : Session) {r : Request} (hr : r.IsQuery) (files : Tree) :
    (∀ t frames s' files', s.handle (r.withTransport t) files = (frames, s', files') →
      (¬ Failed frames → ∃ v, s.result r = .ok v ∧ Delivered t v files files' frames) ∧
        (Failed frames ↔
          (∃ f, s.result r = .error f) ∨ ∃ v, s.result r = .ok v ∧ t.SaveFails v files)) ∧
      ∀ t t', Failed (s.handle (r.withTransport t) files).1 →
        Failed (s.handle (r.withTransport t') files).1 ∨
          ∃ v, s.result r = .ok v ∧ t.SaveFails v files := by
  have hquery : ∀ t, (r.withTransport t).IsQuery := fun t => ⟨hr.not_init, hr.not_exit⟩
  refine ⟨fun t frames s' files' h => ⟨fun hfrom => ?_, ?_⟩, fun t t' hfailed => ?_⟩
  · have hdelivered := s.delivered_of_query files (hquery t) (by rw [h]; exact hfrom)
    rw [h] at hdelivered
    exact hdelivered
  · have hiff := s.failed_query_iff files (hquery t)
    rw [h] at hiff
    exact hiff
  · rcases (s.failed_query_iff files (hquery t)).mp hfailed with hnone | hsave
    · exact .inl ((s.failed_query_iff files (hquery t')).mpr (.inl hnone))
    · exact .inr hsave

/-- A session that holds a class and two classes that extend it. -/
def family : Session :=
  ⟨some ⟨∅, ⟨["Shape", "Disc", "Box"], [("Shape", "Disc"), ("Shape", "Box")], []⟩⟩, false⟩

/-- The two classes are sent one by one, and no file changes. -/
theorem handle_delivers_family : ∃ v,
    family.result ((Request.ofOperation "subclasses_of").arg (.string "Shape")) = .ok v ∧
      Delivered ⟨true, false, none, 2⟩ v .empty .empty
        [.begin .list, .part (.array [.string "Disc"]), .part (.array [.string "Box"]), .finish] :=
  ((handle_delivers family ⟨by decide, by decide⟩ .empty).1 ⟨true, false, none, 2⟩ _ family .empty
    (by with_unfolding_all rfl)).1 (by simp [Failed, Frame.isFailed])

end BytecodeIR.Service
