/-
The service over a stream of lines.

The service reads lines and writes lines, and neither side can lose its place.  Bytes
can be cut after their line feeds in one way only.  A frame is printed without a line
feed, so the lines of the output are the frames, one for one.  And a reply begins and
ends in a way that shows where it does, so the frames of a whole run fall apart into
replies in one way only, one for each request.

Either side understands the other: a line that is printed for a request is taken for
that request, and from the line of a frame the frame is read back.

What is left is which lines are answered.  They are the first ones that are not blank,
up to the exit or up to a line that is no request; the induction is on the lines of the
input, and a line that is read either is blank and passes, or stops the service, or is
answered and leaves a state to go on from.
-/
import BytecodeIR.Proofs.Service.Frame
import BytecodeIR.Proofs.Service.Request
import BytecodeIR.Proofs.Service.Session
import BytecodeIR.Proofs.Text.Encoding
import BytecodeIR.Service.Stream

namespace BytecodeIR.Service

/-! ### Lines of bytes

A line ends with a line feed and has no other, except that the last one may end with the
text.  This is said of the lines and not of the way in which they are found, and it
leaves no choice.
-/

/-- Bytes are cut into lines: a line is not empty and has a line feed at most at its end, and only
the last one may go without. -/
structure CutLines (bytes : List UInt8) (lines : List (List UInt8)) : Prop where
  whole : lines.flatten = bytes
  filled : ∀ line ∈ lines, line ≠ []
  unbroken : ∀ line ∈ lines, 0x0a ∉ line.dropLast
  ended : ∀ line ∈ lines.dropLast, line.getLast? = some 0x0a

section Lines

variable {bytes line : List UInt8} {lines : List (List UInt8)}

theorem splitLines_of_notMem (h : 0x0a ∉ line) (hne : line ≠ []) : splitLines line = [line] := by
  induction line with
  | nil => exact absurd rfl hne
  | cons b rest ih =>
      rw [List.mem_cons, not_or] at h
      rw [splitLines, if_neg (Ne.symm h.1)]
      cases rest with
      | nil => rfl
      | cons c more => rw [ih h.2 (List.cons_ne_nil _ _)]

theorem splitLines_append_feed (h : 0x0a ∉ line) (more : List UInt8) :
    splitLines (line ++ 0x0a :: more) = (line ++ [0x0a]) :: splitLines more := by
  induction line with
  | nil => rw [List.nil_append, splitLines, if_pos rfl, List.nil_append]
  | cons b rest ih =>
      rw [List.mem_cons, not_or] at h
      rw [List.cons_append, splitLines, if_neg (Ne.symm h.1), ih h.2]
      rfl

theorem CutLines.tail (h : CutLines bytes (line :: lines)) : CutLines lines.flatten lines where
  whole := rfl
  filled := fun l hl => h.filled l (List.mem_cons_of_mem _ hl)
  unbroken := fun l hl => h.unbroken l (List.mem_cons_of_mem _ hl)
  ended := fun l hl => h.ended l (by
    cases lines with
    | nil => cases hl
    | cons m more => exact List.mem_cons_of_mem _ hl)

theorem CutLines.eq_splitLines (h : CutLines bytes lines) : lines = splitLines bytes := by
  induction lines generalizing bytes with
  | nil =>
      rw [← h.whole]
      rfl
  | cons line rest ih =>
      have hbytes := h.whole
      rw [List.flatten_cons] at hbytes
      have hunbroken := h.unbroken line List.mem_cons_self
      have hrest := ih h.tail
      have hlast := List.dropLast_append_getLast (h.filled line List.mem_cons_self)
      by_cases hfeed : line.getLast? = some 0x0a
      · rw [List.getLast?_eq_some_getLast (h.filled line List.mem_cons_self),
          Option.some.injEq] at hfeed
        rw [hfeed] at hlast
        rw [← hbytes, ← hlast, List.append_assoc, List.singleton_append,
          splitLines_append_feed hunbroken, ← hrest]
      · -- Only the last line goes without a line feed.
        cases rest with
        | cons m more => exact absurd (h.ended line List.mem_cons_self) hfeed
        | nil =>
            rw [List.flatten_nil, List.append_nil] at hbytes
            rw [← hbytes, splitLines_of_notMem ?_ (h.filled line List.mem_cons_self)]
            rw [← hlast, List.mem_append, not_or, List.mem_singleton]
            rw [List.getLast?_eq_some_getLast (h.filled line List.mem_cons_self),
              Option.some.injEq] at hfeed
            exact ⟨hunbroken, Ne.symm hfeed⟩

theorem cutLines_splitLines (bytes : List UInt8) : CutLines bytes (splitLines bytes) := by
  induction bytes with
  | nil => exact ⟨rfl, by simp [splitLines], by simp [splitLines], by simp [splitLines]⟩
  | cons b rest ih =>
      rw [splitLines]
      split
      · rename_i hb
        subst hb
        refine ⟨by rw [List.flatten_cons, ih.whole]; rfl, ?_, ?_, ?_⟩
        · exact List.forall_mem_cons.mpr ⟨List.cons_ne_nil _ _, ih.filled⟩
        · exact List.forall_mem_cons.mpr ⟨by simp, ih.unbroken⟩
        · cases hlines : splitLines rest with
          | nil => simp
          | cons line lines =>
              have hended := ih.ended
              rw [hlines] at hended
              rw [List.dropLast_cons_of_ne_nil (List.cons_ne_nil _ _)]
              exact List.forall_mem_cons.mpr ⟨rfl, hended⟩
      · rename_i hb
        cases hlines : splitLines rest with
        | nil =>
            have hwhole := ih.whole
            rw [hlines] at hwhole
            subst hwhole
            exact ⟨rfl, by simp, by simp, by simp⟩
        | cons line lines =>
            rw [hlines] at ih
            have hne := ih.filled line List.mem_cons_self
            refine ⟨?_, ?_, ?_, ?_⟩
            · rw [← ih.whole]
              rfl
            · exact List.forall_mem_cons.mpr
                ⟨List.cons_ne_nil _ _, fun l hl => ih.filled l (List.mem_cons_of_mem _ hl)⟩
            · refine List.forall_mem_cons.mpr
                ⟨?_, fun l hl => ih.unbroken l (List.mem_cons_of_mem _ hl)⟩
              rw [List.dropLast_cons_of_ne_nil hne, List.mem_cons, not_or]
              exact ⟨Ne.symm hb, ih.unbroken line List.mem_cons_self⟩
            · have hended := ih.ended
              cases lines with
              | nil => simp
              | cons m more =>
                  rw [List.dropLast_cons_of_ne_nil (List.cons_ne_nil _ _),
                    List.forall_mem_cons] at hended ⊢
                  refine ⟨?_, hended.2⟩
                  rw [List.getLast?_cons_of_ne_nil hne]
                  exact hended.1

/-- **Bytes are cut into lines in one way.** -/
theorem cutLines_iff : CutLines bytes lines ↔ lines = splitLines bytes :=
  ⟨CutLines.eq_splitLines, fun h => h ▸ cutLines_splitLines bytes⟩

end Lines

/-! ### Replies

A reply is one frame or a group of frames between two that open and close it.  A frame
that opens is followed by parts up to the one that closes, and neither can begin a
reply; so if the frames of two runs of replies are the same, their first replies are,
and then the others.
-/

/-- What stands in the parts of a container: objects for a map, arrays for a list. -/
def Container.Holds : Container → Json → Prop
  | map, items => ∃ members, items = .object members
  | list, items => ∃ js, items = .array js

/-- A reply: one frame that is all of it or reports a failure, or a container in parts, from the
frame that begins it to the one that ends it. -/
inductive ReplyGroup : List Frame → Prop
  | unit (result : Option Json) (text : Option String) : ReplyGroup [.unit result text]
  | failed (operation message : String) : ReplyGroup [.failed operation message]
  | parts (container : Container) {items : List Json} (h : ∀ j ∈ items, container.Holds j) :
      ReplyGroup (.begin container :: items.map .part ++ [.finish])

section Groups

variable {frames frames' rest rest' : List Frame}

theorem Carries.replyGroup {v : Json} (h : Carries v frames) : ReplyGroup frames := by
  have hsplit : ∀ {α : Type} (container : Container) (wrap : α → Json) (pieces : List α),
      (∀ a, container.Holds (wrap a)) →
        ReplyGroup (.begin container :: pieces.map (fun a => .part (wrap a)) ++ [.finish]) := by
    intro α container wrap pieces hwrap
    have hitems : ∀ j ∈ pieces.map wrap, container.Holds j := by
      intro j hj
      obtain ⟨a, -, rfl⟩ := List.mem_map.mp hj
      exact hwrap a
    have hparts := ReplyGroup.parts container hitems
    rwa [List.map_map] at hparts
  cases h with
  | result => exact .unit _ _
  | text => exact .unit _ _
  | both => exact .unit _ _
  | list => exact hsplit .list .array _ fun js => ⟨js, rfl⟩
  | map => exact hsplit .map .object _ fun ms => ⟨ms, rfl⟩

/-- A request is answered by saying no more than that it is done, by a failure, or by frames that
carry its result. -/
theorem State.reply_cases (w : State) (r : Request) :
    w.reply r = [.done] ∨ (∃ f, w.reply r = r.failure f) ∨
      ∃ v, w.session.result r = .ok v ∧ Carries v (w.reply r) := by
  unfold reply
  by_cases hexit : r.operation = "__exit"
  · rw [handle_exit w.session w.files hexit]
    exact .inl rfl
  by_cases hinit : r.operation = "__init__"
  · rw [handle_init w.session w.files hinit]
    cases initialise r w.files with
    | ok lifted => exact .inl rfl
    | error f => exact .inr (.inl ⟨f, rfl⟩)
  rcases w.session.handle_query_cases w.files ⟨hinit, hexit⟩ with h | ⟨f, -, hhandle⟩
  · obtain ⟨frames, files', hanswer, hhandle, -⟩ := h
    rw [hhandle]
    obtain ⟨v, hresult, hdelivered⟩ := w.session.delivered_of_answer w.files hanswer
    cases hsends : r.transport.sendsBack with
    | true => exact .inr (.inr ⟨v, hresult, hdelivered.carries hsends⟩)
    | false => exact .inl (hdelivered.silent hsends)
  · rw [hhandle]
    exact .inr (.inl ⟨f, rfl⟩)

/-- **Every request is answered with one reply.** -/
theorem State.replyGroup (w : State) (r : Request) : ReplyGroup (w.reply r) := by
  rcases w.reply_cases r with hdone | ⟨f, hfailed⟩ | ⟨v, -, hcarries⟩
  · rw [hdone]
    exact .unit none none
  · rw [hfailed]
    exact .failed _ _
  · exact hcarries.replyGroup

/-- **Every frame of a reply can be told from what is read of it.** -/
theorem State.sendable_of_mem_reply (w : State) (r : Request) : ∀ f ∈ w.reply r, f.Sendable := by
  rcases w.reply_cases r with hdone | ⟨f, hfailed⟩ | ⟨v, hresult, hcarries⟩
  · rw [hdone]
    simp [Frame.done, Frame.Sendable]
  · rw [hfailed]
    simp [Request.failure, Frame.Sendable]
  · exact hcarries.sendable (Session.ordered_of_result hresult)

theorem parts_unique {items items' : List Json}
    (h : items.map Frame.part ++ .finish :: rest = items'.map Frame.part ++ .finish :: rest') :
    items = items' ∧ rest = rest' := by
  induction items generalizing items' with
  | nil =>
      cases items' with
      | nil => exact ⟨rfl, (List.cons.inj h).2⟩
      | cons j js => cases (List.cons.inj h).1
  | cons i is ih =>
      cases items' with
      | nil => cases (List.cons.inj h).1
      | cons j js =>
          obtain ⟨hhead, htail⟩ := List.cons.inj h
          obtain ⟨rfl, hrest⟩ := ih htail
          exact ⟨by rw [Frame.part.inj hhead], hrest⟩

/-- A reply shows where it ends. -/
theorem ReplyGroup.append_unique (h : ReplyGroup frames) (h' : ReplyGroup frames')
    (heq : frames ++ rest = frames' ++ rest') : frames = frames' ∧ rest = rest' := by
  cases h with
  | unit result text =>
      cases h' with
      | unit result' text' =>
          obtain ⟨hhead, htail⟩ := List.cons.inj heq
          exact ⟨by rw [hhead], htail⟩
      | failed operation message => cases (List.cons.inj heq).1
      | parts container hitems => cases (List.cons.inj heq).1
  | failed operation message =>
      cases h' with
      | unit result text => cases (List.cons.inj heq).1
      | failed operation' message' =>
          obtain ⟨hhead, htail⟩ := List.cons.inj heq
          exact ⟨by rw [hhead], htail⟩
      | parts container hitems => cases (List.cons.inj heq).1
  | parts container hitems =>
      cases h' with
      | unit result text => cases (List.cons.inj heq).1
      | failed operation message => cases (List.cons.inj heq).1
      | parts container' hitems' =>
          rw [List.cons_append, List.cons_append, List.append_assoc, List.cons_append,
            List.append_assoc, List.cons_append] at heq
          obtain ⟨hhead, htail⟩ := List.cons.inj heq
          obtain rfl := Frame.begin.inj hhead
          obtain ⟨rfl, hrest⟩ := parts_unique htail
          exact ⟨rfl, hrest⟩

theorem ReplyGroup.ne_nil (h : ReplyGroup frames) : frames ≠ [] := by
  cases h <;> exact List.cons_ne_nil _ _

/-- **Frames fall apart into replies in one way only.** -/
theorem replies_unique {groups groups' : List (List Frame)} (h : ∀ g ∈ groups, ReplyGroup g)
    (h' : ∀ g ∈ groups', ReplyGroup g) (heq : groups.flatten = groups'.flatten) :
    groups = groups' := by
  induction groups generalizing groups' with
  | nil =>
      cases groups' with
      | nil => rfl
      | cons g' gs' =>
          have hnil : g' ++ gs'.flatten = [] := heq.symm
          exact absurd (List.append_eq_nil_iff.mp hnil).1 (h' g' List.mem_cons_self).ne_nil
  | cons g gs ih =>
      cases groups' with
      | nil =>
          have hnil : g ++ gs.flatten = [] := heq
          exact absurd (List.append_eq_nil_iff.mp hnil).1 (h g List.mem_cons_self).ne_nil
      | cons g' gs' =>
          obtain ⟨rfl, htail⟩ := (h g List.mem_cons_self).append_unique
            (h' g' List.mem_cons_self) heq
          rw [ih (fun x hx => h x (List.mem_cons_of_mem _ hx))
            (fun x hx => h' x (List.mem_cons_of_mem _ hx)) htail]

end Groups

/-! ### Requests in lines -/

/-- A line is blank: a text of blanks alone. -/
def isBlankLine (line : List UInt8) : Bool := (Text.decode? line).any Text.isBlankText

/-- The lines that are not blank. -/
def filledLines (lines : List (List UInt8)) : List (List UInt8) :=
  lines.filter fun line => !isBlankLine line

/-- A line is a text that is a request. -/
def Asks (line : List UInt8) (r : Request) : Prop :=
  ∃ text, Text.decode? line = some text ∧ Request.decoder.ofText text = .ok r

/-- The bytes of the line that a request is printed as. -/
def Request.bytes (r : Request) : List UInt8 := Text.encode (r.encode.text ++ "\n")

theorem Request.asks_bytes {r : Request} (h : r.Printable) (hread : r.encode.Readable)
    (hdepth : (Json.Document.ofJson r.encode).depth ≤ Json.nestingLimit) : Asks r.bytes r :=
  ⟨_, Text.decode?_encode _, ofText_line h hread hdepth⟩

/-- A line is no request, for a reason. -/
inductive Refuses (line : List UInt8) : Fault → Prop
  | noText (h : Text.decode? line = none) : Refuses line (.file .notText)
  | noRequest {text : String} {p : Json.Problem} (htext : Text.decode? line = some text)
      (hproblem : Request.decoder.ofText text = .error p) : Refuses line (.document p)

/-- No request of a list tells the service to end. -/
def GoesOn (requests : List Request) : Prop := ∀ r ∈ requests, r.operation ≠ "__exit"

/-- The service stops once some requests are answered, with a fault or without one. -/
inductive Stops (s : Session) (lines : List (List UInt8)) (requests : List Request) :
    Option Fault → Prop
  /-- The session was closed before. -/
  | closed (hclosed : s.closed = true) (hnone : requests = []) : Stops s lines requests none
  /-- The last request is the first one to tell the service to end. -/
  | exit {before : List Request} {last : Request} (hopen : s.closed = false)
      (hrequests : requests = before ++ [last]) (hbefore : GoesOn before)
      (hexit : last.operation = "__exit") : Stops s lines requests none
  /-- There are no more lines. -/
  | ended (hopen : s.closed = false) (hgoes : GoesOn requests)
      (hall : requests.length = lines.length) : Stops s lines requests none
  /-- The next line is no request. -/
  | refused {line : List UInt8} {fault : Fault} (hopen : s.closed = false)
      (hgoes : GoesOn requests) (hnext : lines[requests.length]? = some line)
      (hfault : Refuses line fault) : Stops s lines requests (some fault)

namespace State

/-- What requests make of a state, one after another. -/
def afterAll (w : State) (requests : List Request) : State :=
  requests.foldl (fun w r => w.after (.request r)) w

/-- The replies to requests, each given in the state that those before it leave. -/
def replies (w : State) : List Request → List (List Frame)
  | [] => []
  | r :: rest => w.reply r :: (w.after (.request r)).replies rest

/-- What holds of every reply holds of all replies to some requests. -/
theorem forall_mem_replies {p : List Frame → Prop} (h : ∀ (w : State) r, p (w.reply r)) {w : State}
    {requests : List Request} : ∀ g ∈ w.replies requests, p g := by
  induction requests generalizing w with
  | nil => simp [replies]
  | cons r rest ih => exact List.forall_mem_cons.mpr ⟨h w r, ih⟩

theorem replyGroup_of_mem_replies {w : State} {requests : List Request} :
    ∀ g ∈ w.replies requests, ReplyGroup g := forall_mem_replies replyGroup

end State

/-- What is served is the answers to the requests in some lines, the blank ones left out: those in
the first lines, up to where the service stops. -/
structure Answers (w : State) (lines : List (List UInt8)) (requests : List Request)
    (out : Served) : Prop where
  asked : List.Forall₂ Asks (lines.take requests.length) requests
  stops : Stops w.session lines requests out.fault
  frames : out.frames = (w.replies requests).flatten
  after : (⟨out.session, out.files⟩ : State) = w.afterAll requests

/-! ### One line -/

/-- What is served for lines of bytes. -/
def answerLines (w : State) (lines : List (List UInt8)) : Served :=
  serveLines (readLines lines).2 w.session w.files (readLines lines).1

section Step

variable {w : State} {line : List UInt8} {lines : List (List UInt8)} {text : String}

theorem filledLines_cons (hfilled : isBlankLine line = false) :
    filledLines (line :: lines) = line :: filledLines lines :=
  List.filter_cons_of_pos (by rw [hfilled]; rfl)

theorem filledLines_cons_of_blank (hblank : isBlankLine line = true) :
    filledLines (line :: lines) = filledLines lines :=
  List.filter_cons_of_neg (by rw [hblank]; simp)

theorem isBlankLine_of_decode? (htext : Text.decode? line = some text) :
    isBlankLine line = Text.isBlankText text := by
  rw [isBlankLine, htext, Option.any_some]

theorem isBlankLine_of_noText (h : Text.decode? line = none) : isBlankLine line = false := by
  rw [isBlankLine, h, Option.any_none]

theorem answerLines_closed (hclosed : w.session.closed = true) :
    answerLines w lines = ⟨[], none, w.session, w.files⟩ := by
  unfold answerLines
  cases (readLines lines).1 with
  | nil => simp [serveLines, hclosed]
  | cons text rest => simp [serveLines, hclosed]

theorem answerLines_noText (hopen : w.session.closed = false) (h : Text.decode? line = none) :
    answerLines w (line :: lines) = ⟨[], some (.file .notText), w.session, w.files⟩ := by
  unfold answerLines
  rw [readLines, h]
  simp [serveLines, hopen]

theorem answerLines_blank (htext : Text.decode? line = some text)
    (hblank : Text.isBlankText text = true) :
    answerLines w (line :: lines) = answerLines w lines := by
  unfold answerLines
  rw [readLines, htext]
  simp only [hblank, if_true]

theorem readLines_filled (htext : Text.decode? line = some text)
    (hfilled : Text.isBlankText text = false) :
    readLines (line :: lines) = (text :: (readLines lines).1, (readLines lines).2) := by
  rw [readLines, htext]
  simp [hfilled]

theorem answerLines_noRequest (hopen : w.session.closed = false)
    (htext : Text.decode? line = some text) (hfilled : Text.isBlankText text = false)
    {p : Json.Problem} (hproblem : Request.decoder.ofText text = .error p) :
    answerLines w (line :: lines) = ⟨[], some (.document p), w.session, w.files⟩ := by
  unfold answerLines
  rw [readLines_filled htext hfilled]
  simp [serveLines, hopen, hproblem]

theorem answerLines_request (hopen : w.session.closed = false)
    (htext : Text.decode? line = some text) (hfilled : Text.isBlankText text = false)
    {r : Request} (hr : Request.decoder.ofText text = .ok r) :
    answerLines w (line :: lines) =
      { answerLines (w.after (.request r)) lines with
        frames := w.reply r ++ (answerLines (w.after (.request r)) lines).frames } := by
  unfold answerLines
  rw [readLines_filled htext hfilled]
  simp only [serveLines, hopen, hr]
  rfl

/-- The answers go on after one request as they do in the state that it leaves. -/
theorem Answers.cons (hopen : w.session.closed = false) {r : Request} (hr : Asks line r)
    {requests : List Request} {out : Served}
    (h : Answers (w.after (.request r)) lines requests out) :
    Answers w (line :: lines) (r :: requests)
      { out with frames := w.reply r ++ out.frames } := by
  have hclosed : (w.after (.request r)).session.closed = true ↔ r.operation = "__exit" := by
    rw [State.closed_after]
    simp [hopen]
  have hgoes : ∀ {qs : List Request}, (w.after (.request r)).session.closed = false →
      GoesOn qs → GoesOn (r :: qs) := by
    intro qs hafter hrest
    refine List.forall_mem_cons.mpr ⟨fun hexit => ?_, hrest⟩
    rw [hclosed.mpr hexit] at hafter
    cases hafter
  refine ⟨.cons hr h.asked, ?_, ?_, h.after⟩
  · have hstops := h.stops
    show Stops w.session (line :: lines) (r :: requests) out.fault
    generalize out.fault = fault at hstops ⊢
    cases hstops with
    | closed hafter hnone =>
        have hrequests : r :: requests = [] ++ [r] := by rw [hnone, List.nil_append]
        exact .exit hopen hrequests (by simp [GoesOn]) (hclosed.mp hafter)
    | exit hafter hrequests hbefore hexit =>
        exact .exit hopen (by rw [hrequests, List.cons_append]) (hgoes hafter hbefore) hexit
    | ended hafter hrest hall =>
        exact .ended hopen (hgoes hafter hrest) (by rw [List.length_cons, hall, List.length_cons])
    | refused hafter hrest hnext hfault =>
        exact .refused hopen (hgoes hafter hrest) hnext hfault
  · rw [h.frames]
    rfl

end Step

/-- **What is served is the answers to the requests in the lines that are not blank.** -/
theorem exists_answers_answerLines (w : State) (lines : List (List UInt8)) :
    ∃ requests, Answers w (filledLines lines) requests (answerLines w lines) := by
  induction lines generalizing w with
  | nil =>
      refine ⟨[], .nil, ?_, rfl, rfl⟩
      cases hclosed : w.session.closed with
      | true => exact .closed hclosed rfl
      | false =>
          have hfault : (answerLines w []).fault = none := by
            simp [answerLines, readLines, serveLines]
          rw [hfault]
          exact .ended hclosed (by simp [GoesOn]) rfl
  | cons line rest ih =>
      cases hclosed : w.session.closed with
      | true =>
          rw [answerLines_closed hclosed]
          exact ⟨[], .nil, .closed hclosed rfl, rfl, rfl⟩
      | false =>
          cases htext : Text.decode? line with
          | none =>
              rw [answerLines_noText hclosed htext, filledLines_cons (isBlankLine_of_noText htext)]
              exact ⟨[], .nil, .refused hclosed (by simp [GoesOn]) rfl (.noText htext), rfl, rfl⟩
          | some text =>
              have hline := isBlankLine_of_decode? htext
              cases hblank : Text.isBlankText text with
              | true =>
                  -- A blank line is passed over on both sides, and the state stays.
                  rw [answerLines_blank htext hblank,
                    filledLines_cons_of_blank (hline.trans hblank)]
                  exact ih w
              | false =>
                  rw [filledLines_cons (hline.trans hblank)]
                  cases hr : Request.decoder.ofText text with
                  | error p =>
                      rw [answerLines_noRequest hclosed htext hblank hr]
                      have hrefuses : Refuses line (.document p) := .noRequest htext hr
                      exact ⟨[], .nil, .refused hclosed (by simp [GoesOn]) rfl hrefuses, rfl, rfl⟩
                  | ok r =>
                      obtain ⟨requests, hanswers⟩ := ih (w.after (.request r))
                      rw [answerLines_request hclosed htext hblank hr]
                      exact ⟨r :: requests, hanswers.cons hclosed ⟨text, htext, hr⟩⟩

/-! ### The output

Line feeds stand behind frames and nowhere in them, so cutting the output into lines
undoes the printing.
-/

/-- The bytes of the line of a frame. -/
def Frame.bytes (f : Frame) : List UInt8 := Text.encode f.encode.text ++ [0x0a]

theorem Frame.feed_notMem (f : Frame) : 0x0a ∉ Text.encode f.encode.text := by
  rw [Text.feed_mem_encode]
  exact f.encode.feed_notMem_text

theorem Served.encode_output (out : Served) :
    Text.encode out.output = (out.frames.map Frame.bytes).flatten := by
  unfold output
  induction out.frames with
  | nil => rfl
  | cons f rest ih =>
      rw [List.map_cons, String.join_cons, Text.encode_append, ih, List.map_cons, List.flatten_cons]
      congr 1

theorem cutLines_output (out : Served) :
    CutLines (Text.encode out.output) (out.frames.map Frame.bytes) where
  whole := out.encode_output.symm
  filled := by simp [Frame.bytes]
  unbroken := by
    intro line hline
    obtain ⟨f, -, rfl⟩ := List.mem_map.mp hline
    rw [Frame.bytes, List.dropLast_concat]
    exact f.feed_notMem
  ended := by
    intro line hline
    obtain ⟨f, -, rfl⟩ := List.mem_map.mp (List.dropLast_subset _ hline)
    exact List.getLast?_concat

theorem Answers.sendable {w : State} {lines : List (List UInt8)} {requests : List Request}
    {out : Served} (h : Answers w lines requests out) : ∀ f ∈ out.frames, f.Sendable := by
  have hreplies : ∀ g ∈ w.replies requests, ∀ f ∈ g, f.Sendable :=
    State.forall_mem_replies (p := fun g => ∀ f ∈ g, f.Sendable) State.sendable_of_mem_reply
  rw [h.frames]
  intro f hf
  obtain ⟨g, hg, hfg⟩ := List.mem_flatten.mp hf
  exact hreplies g hg f hfg

/-- A line is a text that is a frame. -/
def Reports (line : List UInt8) (f : Frame) : Prop :=
  ∃ text, Text.decode? line = some text ∧ Frame.decoder.ofText text = .ok f

theorem Frame.bytes_eq (f : Frame) : f.bytes = Text.encode f.line := by
  rw [line, Text.encode_append]
  rfl

/-- What the service makes of a stream of bytes, given the lines of the stream and the requests
that are answered. -/
structure Serves (w : State) (input : List UInt8) (lines : List (List UInt8))
    (requests : List Request) (out : Served) : Prop where
  /-- The input has those lines and no others. -/
  cut : ∀ ls, CutLines input ls ↔ ls = lines
  /-- A line that is printed for a request is taken for this request, with the same provisos as
  below. -/
  understood : ∀ r : Request, r.bytes ∈ lines → r.Printable → r.encode.Readable →
    (Json.Document.ofJson r.encode).depth ≤ Json.nestingLimit → Asks r.bytes r
  /-- The answers are those to the requests in the lines, the blank ones left out. -/
  answers : Answers w (filledLines lines) requests out
  /-- The frames are cut into replies in one way, which gives every request its own. -/
  groups : ∀ gs, (gs.flatten = out.frames ∧ ∀ g ∈ gs, ReplyGroup g) ↔ gs = w.replies requests
  /-- The bytes of the output are those of each frame, with a line feed after it. -/
  bytes : Text.encode out.output = out.frames.flatMap fun f => Text.encode f.encode.text ++ [0x0a]
  /-- What is printed for a frame is its JSON in compact form, of which there is one. -/
  compact : ∀ f ∈ out.frames, ∀ text, Json.Compact f.encode text ↔ text = f.encode.text
  /-- What is printed is the tag of the frame and the members that a frame of its kind has. -/
  spelled : ∀ f ∈ out.frames, f.encode.text = f.spelled
  /-- No frame is printed with a line feed. -/
  unbroken : ∀ f ∈ out.frames, 0x0a ∉ Text.encode f.encode.text
  /-- The output is cut into lines in one way, and its lines are the frames. -/
  lines : ∀ ls, CutLines (Text.encode out.output) ls ↔ ls = out.frames.map Frame.bytes
  /-- Whoever reads such a line reads the frame, provided that the numbers in it survive being
  written and read, and that no more brackets are open at once than a reader admits. -/
  readBack : ∀ f ∈ out.frames, f.encode.Readable →
    (Json.Document.ofJson f.encode).depth ≤ Json.nestingLimit → Reports f.bytes f

/-- **The service answers line by line**: the requests in the first lines that are not blank get
one reply each, up to where the service stops, and the lines of the output are their frames, each
printed as its compact JSON, from which it can be read again. -/
theorem Session.serves_serve (s : Session) (files : Tree) (input : List UInt8) :
    ∃ lines requests, Serves ⟨s, files⟩ input lines requests (s.serve files input) := by
  obtain ⟨requests, hanswers⟩ := exists_answers_answerLines ⟨s, files⟩ (splitLines input)
  have hserve : answerLines ⟨s, files⟩ (splitLines input) = s.serve files input := rfl
  rw [hserve] at hanswers
  refine ⟨splitLines input, requests, fun ls => cutLines_iff, fun r _ => Request.asks_bytes,
    hanswers, fun gs => ⟨?_, ?_⟩, ?_, fun f _ text => Json.compact_iff, fun f _ => f.text_encode,
    fun f _ => f.feed_notMem, ?_, ?_⟩
  · rintro ⟨hflatten, hgroups⟩
    rw [hanswers.frames] at hflatten
    exact replies_unique hgroups State.replyGroup_of_mem_replies hflatten
  · rintro rfl
    exact ⟨hanswers.frames.symm, State.replyGroup_of_mem_replies⟩
  · rw [Served.encode_output, List.flatMap_def]
    rfl
  · intro ls
    rw [cutLines_iff, ← cutLines_iff.mp (cutLines_output _)]
  · intro f hf hread hdepth
    refine ⟨f.line, ?_, Frame.ofText_line (hanswers.sendable f hf) hread hdepth⟩
    rw [f.bytes_eq, Text.decode?_encode]

/-- A blank line, a request that fails, another blank line, a request with a result that is split,
the exit, and a request that comes too late. -/
def familyTalk : List UInt8 :=
  Text.encode ("\n\x7b\"op\":\"no_such\"\x7d\r\n \t\n" ++
    "\x7b\"op\":\"subclasses_of\",\"args\":[\"Shape\"]," ++
    "\"options\":\x7b\"split_results\":2\x7d\x7d\n" ++
    "\x7b\"op\":\"__exit\"\x7d\n\x7b\"op\":\"get_classes\"\x7d")

/-- The replies that `family` gives. -/
def familyReplies : List (List Frame) :=
  [[.failed "no_such" "Unknown operation no_such"],
    [.begin .list, .part (.array [.string "Disc"]), .part (.array [.string "Box"]), .finish],
    [.done]]

/-- Three requests are answered, and every line of the answers is read back as its frame. -/
theorem serves_serve_family : ∃ lines requests,
    Serves ⟨family, .empty⟩ familyTalk lines requests (family.serve .empty familyTalk) ∧
      (⟨family, .empty⟩ : State).replies requests = familyReplies ∧
      (family.serve .empty familyTalk).output =
        "\x7b\"frame\":\"failed\",\"op\":\"no_such\"," ++
          "\"message\":\"Unknown operation no_such\"\x7d\n" ++
          "\x7b\"frame\":\"begin\",\"container\":\"list\"\x7d\n" ++
          "\x7b\"frame\":\"chunk\",\"items\":[\"Disc\"]\x7d\n" ++
          "\x7b\"frame\":\"chunk\",\"items\":[\"Box\"]\x7d\n" ++
          "\x7b\"frame\":\"end\"\x7d\n\x7b\"frame\":\"unit\"\x7d\n" ∧
      ∀ f ∈ familyReplies.flatten, Reports f.bytes f := by
  obtain ⟨lines, requests, h⟩ := family.serves_serve .empty familyTalk
  have hframes : (family.serve .empty familyTalk).frames = familyReplies.flatten := by
    decide +kernel
  have hgroups : ∀ g ∈ familyReplies, ReplyGroup g := by
    have hparts : ∀ j ∈ [Json.array [.string "Disc"], .array [.string "Box"]],
        Container.list.Holds j := by simp [Container.Holds]
    simp only [familyReplies, List.forall_mem_cons, List.not_mem_nil, false_implies, implies_true,
      and_true]
    exact ⟨.failed _ _, .parts .list hparts, .unit none none⟩
  have hreadable : ∀ f ∈ familyReplies.flatten, f.encode.Readable := by
    simp [familyReplies, Frame.done, Frame.encode, Json.Readable, Json.MembersReadable,
      Json.ItemsReadable]
  have hdepth : ∀ f ∈ familyReplies.flatten,
      (Json.Document.ofJson f.encode).depth ≤ Json.nestingLimit := by decide +kernel
  refine ⟨lines, requests, h, ((h.groups _).mp ⟨hframes.symm, hgroups⟩).symm, ?_, fun f hf => ?_⟩
  · unfold Served.output
    rw [hframes]
    decide +kernel
  · exact h.readBack f (hframes ▸ hf) (hreadable f hf) (hdepth f hf)

end BytecodeIR.Service
