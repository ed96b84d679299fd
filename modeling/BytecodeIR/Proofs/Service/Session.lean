/-
What a session remembers of a run.

Of all that happens while a session is open, two things leave a trace in it.  An
initialisation that does not fail puts the program that it lifts in the place of any
that was held, and an exit closes the session.  Everything else leaves no trace: a
request that is answered by a failure, a query, a change of the files from outside.

So the session holds what its last successful initialisation lifted from the files as
they were then, and it answers every later request as a session would that was begun
by that one request.  The files may have changed in the meantime; no query reads
them.
-/
import BytecodeIR.Proofs.Service.Transport
import Mathlib.Data.List.Induction

namespace BytecodeIR.Service

/-! ### Runs -/

/-- What can happen while a session is open. -/
inductive Event where
  | request (r : Request)
  /-- The files change from outside. -/
  | change (files : Tree)

/-- A session and the files around it. -/
structure State where
  session : Session
  files : Tree

namespace State

/-- The frames that a request is answered with. -/
def reply (w : State) (r : Request) : List Frame := (w.session.handle r w.files).1

/-- What an event makes of a state. -/
def after (w : State) : Event → State
  | .request r => ⟨(w.session.handle r w.files).2.1, (w.session.handle r w.files).2.2⟩
  | .change files => ⟨w.session, files⟩

end State

/-- What a fresh session and the files come to, event by event. -/
def run (files : Tree) (events : List Event) : State := events.foldl State.after ⟨.fresh, files⟩

theorem run_append_singleton (files : Tree) (events : List Event) (e : Event) :
    run files (events ++ [e]) = (run files events).after e :=
  List.foldl_concat ..

/-! ### Initialising -/

/-- What a request lifts from files: the settings are those that it gives and they pass their check,
the program is what the file that it names holds, and the classes are lifted and saved as the
settings say. -/
def Lifts (r : Request) (files : Tree) (i : Instance) (files' : Tree) : Prop :=
  ∃ settings path text program, r.settings = .ok settings ∧ r.text? 0 "program" = some path ∧
    settings.check files = .ok () ∧ files.read ⟨path⟩ = .ok text ∧
    Dump.Program.ofText text = .ok program ∧ settings.lift program files = .ok (i.classes, files') ∧
    i.hierarchy = .ofProgram program

section Handle

variable {s s' : Session} {r : Request} {files files' : Tree} {i : Instance}

theorem firstText_eq_ok {name text : String} :
    r.firstText name = .ok text ↔ r.text? 0 name = some text := by
  unfold Request.firstText
  cases r.text? 0 name <;> simp

/-- An initialisation succeeds with exactly what the request lifts. -/
theorem initialise_eq_ok : initialise r files = .ok (i, files') ↔ Lifts r files i files' := by
  unfold initialise Lifts Dump.Program.ofFile Tree.readText
  simp only [bind_eq_ok, mapError_eq_ok, firstText_eq_ok]
  constructor
  · intro h
    obtain ⟨settings, hsettings, path, hpath, ⟨⟩, hcheck, program, ⟨text, htext, hprogram⟩,
      ⟨classes, saved⟩, hlift, h⟩ := h
    obtain ⟨rfl, rfl⟩ := Prod.mk.inj (Except.ok.inj h)
    exact ⟨settings, path, text, program, hsettings, hpath, hcheck, htext, hprogram, hlift, rfl⟩
  · intro h
    obtain ⟨settings, path, text, program, hsettings, hpath, hcheck, htext, hprogram, hlift,
      hi⟩ := h
    refine ⟨settings, hsettings, path, hpath, (), hcheck, program, ⟨text, htext, hprogram⟩, _,
      hlift, ?_⟩
    rw [← hi]

theorem Lifts.unique {j : Instance} {files'' : Tree} (h : Lifts r files i files')
    (h' : Lifts r files j files'') : i = j ∧ files' = files'' :=
  Prod.mk.inj (Except.ok.inj
    ((initialise_eq_ok.mpr h).symm.trans (initialise_eq_ok.mpr h')))

/-! ### One request -/

theorem not_failed_done : ¬ Failed [.done] := by
  simp [Failed, Frame.done, Frame.isFailed]

theorem handle_exit (s : Session) (files : Tree) (hexit : r.operation = "__exit") :
    s.handle r files = ([.done], { s with closed := true }, files) := by
  unfold Session.handle
  rw [hexit]
  rfl

theorem handle_init (s : Session) (files : Tree) (hinit : r.operation = "__init__") :
    s.handle r files = match initialise r files with
      | .ok (i, files) => ([.done], { s with program := some i }, files)
      | .error f => (r.failure f, s, files) := by
  unfold Session.handle
  rw [hinit]
  rfl

/-- The frames of an answer, and the files after it, depend on nothing but the program held. -/
theorem handle_congr (h : s.program = s'.program) (r : Request) (files : Tree) :
    (s.handle r files).1 = (s'.handle r files).1 ∧
      (s.handle r files).2.2 = (s'.handle r files).2.2 := by
  have hanswer : s.answer r files = s'.answer r files := by
    unfold Session.answer
    rw [h]
  by_cases hexit : r.operation = "__exit"
  · rw [handle_exit s files hexit, handle_exit s' files hexit]
    exact ⟨rfl, rfl⟩
  by_cases hinit : r.operation = "__init__"
  · rw [handle_init s files hinit, handle_init s' files hinit]
    cases initialise r files <;> exact ⟨rfl, rfl⟩
  rw [s.handle_query files ⟨hinit, hexit⟩, s'.handle_query files ⟨hinit, hexit⟩, hanswer]
  cases s'.answer r files <;> exact ⟨rfl, rfl⟩

end Handle

/-! ### One event

A request can do four things to a session, and `after_cases` goes through them once: it
closes the session, it puts a program into it, it fails or it is answered, and in the
last two cases the session stays.  What is said of a session after an event is read off
this.
-/

namespace State

variable {w : State} {r : Request} {e : Event} {i : Instance}

/-- **All that a request can do**: it closes the session, or it initialises it, or it is answered
by a failure and nothing changes, or it is a query and the session does not change. -/
theorem after_cases (w : State) (r : Request) :
    (r.operation = "__exit" ∧ w.reply r = [.done] ∧
      w.after (.request r) = ⟨{ w.session with closed := true }, w.files⟩) ∨
    (r.operation = "__init__" ∧ w.reply r = [.done] ∧ ∃ i files', Lifts r w.files i files' ∧
      w.after (.request r) = ⟨{ w.session with program := some i }, files'⟩) ∨
    (r.operation ≠ "__exit" ∧ Failed (w.reply r) ∧ w.after (.request r) = w) ∨
    (r.IsQuery ∧ ¬ Failed (w.reply r) ∧ ∃ files', w.after (.request r) = ⟨w.session, files'⟩) := by
  unfold reply
  have hafter : w.after (.request r) =
    ⟨(w.session.handle r w.files).2.1, (w.session.handle r w.files).2.2⟩ := rfl
  rw [hafter]
  by_cases hexit : r.operation = "__exit"
  · rw [handle_exit w.session w.files hexit]
    exact .inl ⟨hexit, rfl, rfl⟩
  by_cases hinit : r.operation = "__init__"
  · rw [handle_init w.session w.files hinit]
    cases h : initialise r w.files with
    | ok lifted => exact .inr (.inl ⟨hinit, rfl, _, _, initialise_eq_ok.mp h, rfl⟩)
    | error f => exact .inr (.inr (.inl ⟨hexit, failed_failure r f, rfl⟩))
  have hquery : r.IsQuery := ⟨hinit, hexit⟩
  rcases w.session.handle_query_cases w.files hquery with h | h
  · obtain ⟨frames, files', -, hhandle, hsent⟩ := h
    rw [hhandle]
    exact .inr (.inr (.inr ⟨hquery, hsent, files', rfl⟩))
  · obtain ⟨f, -, hhandle⟩ := h
    rw [hhandle]
    exact .inr (.inr (.inl ⟨hexit, failed_failure r f, rfl⟩))

/-- A request that is answered by a failure changes neither the session nor any file. -/
theorem after_of_failed (h : Failed (w.reply r)) : w.after (.request r) = w := by
  rcases w.after_cases r with ⟨-, hreply, -⟩ | ⟨-, hreply, -⟩ | ⟨-, -, hafter⟩ | ⟨-, hsent, -⟩
  · rw [hreply] at h
    exact absurd h not_failed_done
  · rw [hreply] at h
    exact absurd h not_failed_done
  · exact hafter
  · exact absurd h hsent

/-- A request initialises the session: it is an initialisation and no failure answers it. -/
structure Initialises (w : State) (r : Request) : Prop where
  operation : r.operation = "__init__"
  succeeds : ¬ Failed (w.reply r)

/-- Whether a request initialises a session does not depend on what the session holds. -/
theorem Initialises.congr {w' : State} (h : w.Initialises r) (hfiles : w.files = w'.files) :
    w'.Initialises r := by
  refine ⟨h.operation, ?_⟩
  have hsucceeds := h.succeeds
  unfold reply at hsucceeds ⊢
  rw [handle_init _ _ h.operation, hfiles] at hsucceeds
  rw [handle_init _ _ h.operation]
  cases hlifted : initialise r w'.files with
  | ok lifted => exact not_failed_done
  | error f =>
      rw [hlifted] at hsucceeds
      exact absurd (failed_failure r f) hsucceeds

/-- A request that initialises the session puts what it lifts into it. -/
theorem Initialises.lifts (h : w.Initialises r) :
    ∃ i files', Lifts r w.files i files' ∧ (w.after (.request r)).session.program = some i := by
  rcases w.after_cases r with ⟨hexit, -⟩ | ⟨-, -, i, files', hlifts, hafter⟩ | ⟨-, hfailed, -⟩ |
    ⟨hquery, -⟩
  · exact absurd (h.operation.symm.trans hexit) (by decide)
  · rw [hafter]
    exact ⟨i, files', hlifts, rfl⟩
  · exact absurd hfailed h.succeeds
  · exact absurd h.operation hquery.not_init

/-- An event that does not initialise the session leaves its program as it is. -/
theorem program_after (h : ∀ r, e = .request r → ¬ w.Initialises r) :
    (w.after e).session.program = w.session.program := by
  cases e with
  | change files => rfl
  | request r =>
      rcases w.after_cases r with ⟨-, -, hafter⟩ | ⟨hinit, hreply, -⟩ | ⟨-, -, hafter⟩ |
        ⟨-, -, files', hafter⟩
      · rw [hafter]
      · refine absurd ⟨hinit, ?_⟩ (h r rfl)
        rw [hreply]
        exact not_failed_done
      · rw [hafter]
      · rw [hafter]

/-- A session is closed by an exit and by nothing else. -/
theorem closed_after : (w.after e).session.closed = true ↔
    w.session.closed = true ∨ ∃ r, e = .request r ∧ r.operation = "__exit" := by
  cases e with
  | change files => simp [after]
  | request r =>
      rcases w.after_cases r with ⟨hexit, -, hafter⟩ | ⟨hinit, -, i, files', -, hafter⟩ |
        ⟨hexit, -, hafter⟩ | ⟨hquery, -, files', hafter⟩
      · simp [hafter, hexit]
      · simp [hafter, hinit]
      · simp [hafter, hexit]
      · simp [hafter, hquery.not_exit]

end State

/-! ### Whole runs

Runs grow at the end, and so does the induction: of the initialisations in a longer run
the last is either that of its last event or the one that was last before.
-/

section Run

variable {files : Tree} {events : List Event} {e : Event} {k : Nat} {r : Request}

/-- The event at a place of a run is a request that initialises the session. -/
structure InitialisesAt (files : Tree) (events : List Event) (k : Nat) (r : Request) : Prop where
  event : events[k]? = some (.request r)
  initialises : (run files (events.take k)).Initialises r

/-- The event at a place of a run is the last request that initialises the session. -/
structure LastInitialises (files : Tree) (events : List Event) (k : Nat) (r : Request) : Prop
    extends InitialisesAt files events k r where
  last : ∀ l q, k < l → ¬ InitialisesAt files events l q

/-- One more event changes nothing about the events before it. -/
theorem initialisesAt_append_singleton :
    InitialisesAt files (events ++ [e]) k r ↔ InitialisesAt files events k r ∨
      k = events.length ∧ e = .request r ∧ (run files events).Initialises r := by
  rcases Nat.lt_trichotomy k events.length with hlt | heq | hgt
  · have hevent : (events ++ [e])[k]? = events[k]? := List.getElem?_append_left hlt
    have htake : (events ++ [e]).take k = events.take k :=
      List.take_append_of_le_length (Nat.le_of_lt hlt)
    constructor
    · intro h
      exact .inl ⟨hevent ▸ h.event, htake ▸ h.initialises⟩
    · intro h
      rcases h with h | ⟨heq, -⟩
      · exact ⟨hevent.trans h.event, htake.symm ▸ h.initialises⟩
      · omega
  · subst heq
    have hevent : (events ++ [e])[events.length]? = some e := List.getElem?_concat_length
    have htake : (events ++ [e]).take events.length = events := List.take_left
    constructor
    · intro h
      exact .inr ⟨rfl, Option.some.inj (hevent.symm.trans h.event), htake ▸ h.initialises⟩
    · intro h
      rcases h with h | ⟨-, rfl, h⟩
      · have hlen := (List.getElem?_eq_some_iff.mp h.event).1
        omega
      · exact ⟨hevent, htake.symm ▸ h⟩
  · constructor
    · intro h
      have hlen := (List.getElem?_eq_some_iff.mp h.event).1
      rw [List.length_append, List.length_singleton] at hlen
      omega
    · intro h
      rcases h with h | ⟨heq, -⟩
      · have hlen := (List.getElem?_eq_some_iff.mp h.event).1
        omega
      · omega

theorem LastInitialises.unique {l : Nat} {q : Request} (h : LastInitialises files events k r)
    (h' : LastInitialises files events l q) : k = l ∧ r = q := by
  have hkl : k = l := by
    rcases Nat.lt_trichotomy k l with hlt | heq | hgt
    · exact absurd h'.toInitialisesAt (h.last l q hlt)
    · exact heq
    · exact absurd h.toInitialisesAt (h'.last k r hgt)
  subst hkl
  exact ⟨rfl, Event.request.inj (Option.some.inj (h.event.symm.trans h'.event))⟩

/-- **After every run the session holds what its last initialisation lifted, and nothing if none
succeeded.** -/
theorem program_run (files : Tree) (events : List Event) :
    (∃ k r i files', LastInitialises files events k r ∧
      Lifts r (run files (events.take k)).files i files' ∧
      (run files events).session.program = some i) ∨
    (∀ k r, ¬ InitialisesAt files events k r) ∧ (run files events).session.program = none := by
  induction events using List.reverseRecOn with
  | nil =>
      refine .inr ⟨fun k r h => ?_, rfl⟩
      have hevent := h.event
      simp at hevent
  | append_singleton events e ih =>
      rw [run_append_singleton]
      by_cases hinit : ∃ r, e = .request r ∧ (run files events).Initialises r
      · obtain ⟨r, rfl, hinit⟩ := hinit
        obtain ⟨i, files', hlifts, hprogram⟩ := hinit.lifts
        refine .inl ⟨events.length, r, i, files',
          ⟨initialisesAt_append_singleton.mpr (.inr ⟨rfl, rfl, hinit⟩), fun l q hl h => ?_⟩, ?_,
          hprogram⟩
        · have hlen := (List.getElem?_eq_some_iff.mp h.event).1
          rw [List.length_append, List.length_singleton] at hlen
          omega
        · rw [List.take_left]
          exact hlifts
      · have hnone : ∀ l q, InitialisesAt files (events ++ [e]) l q →
            InitialisesAt files events l q := by
          intro l q h
          rcases initialisesAt_append_singleton.mp h with h | ⟨-, he, h⟩
          · exact h
          · exact absurd ⟨q, he, h⟩ hinit
        have hsame := (run files events).program_after (e := e) fun r he h => hinit ⟨r, he, h⟩
        rw [hsame]
        rcases ih with ⟨k, r, i, files', hlast, hlifts, hprogram⟩ | ⟨hno, hprogram⟩
        · have hk := (List.getElem?_eq_some_iff.mp hlast.event).1
          refine .inl ⟨k, r, i, files', ⟨initialisesAt_append_singleton.mpr
            (.inl hlast.toInitialisesAt), fun l q hl h => hlast.last l q hl (hnone l q h)⟩, ?_,
            hprogram⟩
          rw [List.take_append_of_le_length (Nat.le_of_lt hk)]
          exact hlifts
        · exact .inr ⟨fun k r h => hno k r (hnone k r h), hprogram⟩

/-- A session is closed after a run exactly if an exit was among its requests. -/
theorem closed_run (files : Tree) (events : List Event) :
    (run files events).session.closed = true ↔
      ∃ r, .request r ∈ events ∧ r.operation = "__exit" := by
  induction events using List.reverseRecOn with
  | nil => simp [run, Session.fresh]
  | append_singleton events e ih =>
      rw [run_append_singleton, State.closed_after, ih]
      simp only [List.mem_append, List.mem_singleton]
      constructor
      · intro h
        rcases h with ⟨r, hr, hexit⟩ | ⟨r, rfl, hexit⟩
        · exact ⟨r, .inl hr, hexit⟩
        · exact ⟨r, .inr rfl, hexit⟩
      · intro h
        obtain ⟨r, hr | hr, hexit⟩ := h
        · exact .inl ⟨r, hr, hexit⟩
        · exact .inr ⟨r, hr.symm, hexit⟩

section Held

variable {files : Tree} {events : List Event} {k : Nat} {r : Request}

theorem program_of_lastInitialises (h : LastInitialises files events k r) :
    ∃ i files', Lifts r (run files (events.take k)).files i files' ∧
      (run files events).session.program = some i := by
  rcases program_run files events with ⟨l, q, i, files', hlast, hlifted⟩ | ⟨hno, -⟩
  · obtain ⟨rfl, rfl⟩ := h.unique hlast
    exact ⟨i, files', hlifted⟩
  · exact absurd h.toInitialisesAt (hno k r)

/-- The program held is what the last initialisation lifted. -/
theorem program_eq_some {i : Instance} : (run files events).session.program = some i ↔
    ∃ k r files', LastInitialises files events k r ∧
      Lifts r (run files (events.take k)).files i files' := by
  constructor
  · intro h
    rcases program_run files events with ⟨k, r, j, files', hlast, hlifts, hprogram⟩ | ⟨-, hprogram⟩
    · obtain rfl : i = j := Option.some.inj (h.symm.trans hprogram)
      exact ⟨k, r, files', hlast, hlifts⟩
    · rw [hprogram] at h
      cases h
  · rintro ⟨k, r, files', hlast, hlifts⟩
    obtain ⟨j, files'', hlifts', hprogram⟩ := program_of_lastInitialises hlast
    rw [hprogram, (hlifts.unique hlifts').1]

/-- No program is held if no initialisation succeeded. -/
theorem program_eq_none :
    (run files events).session.program = none ↔ ∀ k r, ¬ InitialisesAt files events k r := by
  rcases program_run files events with ⟨l, q, i, -, hlast, -, hprogram⟩ | ⟨hno, hprogram⟩
  · rw [hprogram]
    exact iff_of_false (Option.some_ne_none i) fun hno => hno l q hlast.toInitialisesAt
  · exact ⟨fun _ => hno, fun _ => hprogram⟩

/-- A session answers as one that has handled only the last initialisation, at its time. -/
theorem reply_of_lastInitialises (h : LastInitialises files events k r) (q : Request) (now : Tree) :
    let held : State := ⟨(run files events).session, now⟩
    let alone : State := ⟨(run (run files (events.take k)).files [.request r]).session, now⟩
    held.reply q = alone.reply q ∧
      (held.after (.request q)).files = (alone.after (.request q)).files := by
  obtain ⟨i, files', hlifts, hprogram⟩ := program_of_lastInitialises h
  have hfresh : State.Initialises ⟨.fresh, (run files (events.take k)).files⟩ r :=
    h.initialises.congr rfl
  obtain ⟨j, files'', hlifts', halone⟩ := hfresh.lifts
  obtain rfl := (hlifts.unique hlifts').1
  exact handle_congr (hprogram.trans halone.symm) q now

end Held

/-- What a session is after a run, whatever happened in it. -/
structure Remembers (files : Tree) (events : List Event) : Prop where
  /-- A request that is answered by a failure changes nothing. -/
  failed : ∀ r, Failed ((run files events).reply r) →
    (run files events).after (.request r) = run files events
  /-- The program held is the one that the last initialisation lifted from the files of then. -/
  program : ∀ i, (run files events).session.program = some i ↔
    ∃ k r files', LastInitialises files events k r ∧
      Lifts r (run files (events.take k)).files i files'
  absent : (run files events).session.program = none ↔ ∀ k r, ¬ InitialisesAt files events k r
  /-- Whatever the files are by now, a request is answered as by a session that has handled nothing
  but the last initialisation, at its time. -/
  replies : ∀ k r, LastInitialises files events k r → ∀ q now,
    let held : State := ⟨(run files events).session, now⟩
    let alone : State := ⟨(run (run files (events.take k)).files [.request r]).session, now⟩
    held.reply q = alone.reply q ∧
      (held.after (.request q)).files = (alone.after (.request q)).files
  /-- Without a successful initialisation every query is refused. -/
  refuses : (∀ k r, ¬ InitialisesAt files events k r) → ∀ q now, q.IsQuery →
    (run files events).session.handle q now =
      (q.failure .noProgram, (run files events).session, now)
  closed : (run files events).session.closed = true ↔
    ∃ r, .request r ∈ events ∧ r.operation = "__exit"

/-- **Whatever happens in a run, the session holds exactly what the last successful initialisation
lifted and answers from that; a failing request leaves no trace; and an exit alone closes it.** -/
theorem run_remembers (files : Tree) (events : List Event) : Remembers files events := by
  constructor
  case failed =>
    intro r hfailed
    exact State.after_of_failed hfailed
  case program =>
    intro i
    exact program_eq_some
  case absent => exact program_eq_none
  case replies =>
    intro k r hlast q now
    exact reply_of_lastInitialises hlast q now
  case refuses =>
    intro hno q now hq
    rw [Session.handle_query _ _ hq]
    unfold Session.answer
    rw [program_eq_none.mpr hno]
  case closed => exact closed_run files events

end Run

/-- A request to initialise a session with the program in a file. -/
def initialising (path : String) : Request := (Request.ofOperation "__init__").arg (.string path)

/-- The program stays through an edit of its file and an initialisation that fails because of it. -/
example : (run ⟨.ofList [([.name "p.json"], .file "\x7b\x7d".toUTF8.toList)]⟩
    [.request (initialising "p.json"), .change .empty, .request (initialising "p.json")]).session =
      ⟨some ⟨∅, ⟨[], [], []⟩⟩, false⟩ := by
  decide +kernel

end BytecodeIR.Service
