/-
A frame is told from its line.

Both sides of a connection keep to one form of each kind of frame.  The line that is
printed for a frame can be spelled out, the tag first and then the members of that kind;
and whoever reads the line reads the frame, because a tag chooses the fields that
the kind has and each field recovers what was put there.

Two things cannot be told from what is read.  A reader sorts the objects in what a frame
carries, so those must be in order already; and it takes the result null for no result.
Neither is ever sent: the results of queries are in order and none is null, and a part
of a result that is in order is in order too.
-/
import BytecodeIR.Proofs.Json.Record
import BytecodeIR.Proofs.Service.Transport

namespace BytecodeIR.Service

open Json (Decoder Recovers)
open Json.Record (Reads)

/-! ### The text of a frame, spelled out -/

/-- Members in braces, with commas between them. -/
def braced (members : List String) : String := "\x7b" ++ ",".intercalate members ++ "\x7d"

/-- The text of a frame, spelled out: its tag, and behind it the members that its kind has. -/
def Frame.spelled : Frame → String
  | unit none none => braced ["\"frame\":\"unit\""]
  | unit (some v) none => braced ["\"frame\":\"unit\"", "\"result\":" ++ v.text]
  | unit none (some s) => braced ["\"frame\":\"unit\"", "\"serialized\":" ++ Json.quoted s]
  | unit (some v) (some s) =>
    braced ["\"frame\":\"unit\"", "\"result\":" ++ v.text, "\"serialized\":" ++ Json.quoted s]
  | begin .map => braced ["\"frame\":\"begin\"", "\"container\":\"map\""]
  | begin .list => braced ["\"frame\":\"begin\"", "\"container\":\"list\""]
  | part items => braced ["\"frame\":\"chunk\"", "\"items\":" ++ items.text]
  | finish => braced ["\"frame\":\"end\""]
  | failed operation message =>
    braced ["\"frame\":\"failed\"", "\"op\":" ++ Json.quoted operation,
      "\"message\":" ++ Json.quoted message]

/-- The text of a member begins with its name and the colon. -/
theorem memberText_of {name start : String} (h : Json.quoted name ++ ":" = start) (v : Json) :
    Json.memberText (name, v) = start ++ v.text := by
  rw [← h]
  rfl

theorem Frame.text_encode (f : Frame) : f.encode.text = f.spelled := by
  cases f with
  | unit result text =>
      have htag : Json.memberText ("frame", .string "unit") = "\"frame\":\"unit\"" := by
        decide +kernel
      have hresult : Json.quoted "result" ++ ":" = "\"result\":" := by decide +kernel
      have htext : Json.quoted "serialized" ++ ":" = "\"serialized\":" := by decide +kernel
      rw [encode, Json.text_object]
      cases result <;> cases text
      all_goals
        simp only [Option.map_none, Option.map_some, Option.toList_none, Option.toList_some,
          List.nil_append, List.cons_append, List.map_cons, List.map_nil, htag,
          memberText_of hresult, memberText_of htext, Json.text_string]
        rfl
  | begin container => cases container <;> decide +kernel
  | part items =>
      have htag : Json.memberText ("frame", .string "chunk") = "\"frame\":\"chunk\"" := by
        decide +kernel
      have hitems : Json.quoted "items" ++ ":" = "\"items\":" := by decide +kernel
      rw [encode, Json.text_object]
      simp only [List.map_cons, List.map_nil, htag, memberText_of hitems]
      rfl
  | finish => decide +kernel
  | failed operation message =>
      have htag : Json.memberText ("frame", .string "failed") = "\"frame\":\"failed\"" := by
        decide +kernel
      have hoperation : Json.quoted "op" ++ ":" = "\"op\":" := by decide +kernel
      have hmessage : Json.quoted "message" ++ ":" = "\"message\":" := by decide +kernel
      rw [encode, Json.text_object]
      simp only [List.map_cons, List.map_nil, htag, memberText_of hoperation,
        memberText_of hmessage, Json.text_string]
      rfl

/-! ### Frames are read back

A reader of a frame goes by the tag and then by the fields of that kind.  The fields of
a result and of its text have defaults, so that any of the four ways in which they may
be there is recovered.
-/

variable {written : Prop} {f : Frame} {v : Json} {frames : List Frame}

/-- What a frame carries can be told from what is read: the objects in it are in order, and a result
is not null. -/
def Frame.Sendable : Frame → Prop
  | unit result _ => ∀ v ∈ result, v.Ordered ∧ v ≠ .null
  | part items => items.Ordered
  | _ => True

theorem recovers_container (container : Container) (src : Json.Source) :
    Recovers written Container.decoder src (.string container.name) container := by
  refine .named ?_
  cases container <;> rfl

/-- **A frame is recovered from its JSON form.** -/
theorem recovers_frame (h : f.Sendable) (hread : written → f.encode.Readable) (src : Json.Source) :
    Recovers written Frame.decoder src f.encode f := by
  cases f with
  | unit result text =>
      have hresult : ∀ v ∈ result, Recovers written Decoder.json.option .buffered v (some v) := by
        intro v hv
        obtain ⟨hordered, hnull⟩ := h v hv
        refine .present hnull (.json (fun hw => ?_) hordered)
        exact Json.readable_object.mp (hread hw) ("result", v) (by simp [Option.mem_def.mp hv])
      have htext : ∀ s, Recovers written Decoder.string.option .buffered (.string s) (some s) :=
        fun s => .present Json.noConfusion (.string s)
      cases result with
      | none =>
          cases text with
          | none => exact ((Reads.pure Frame.unit).skip |>.skip).tagged rfl (by simp)
          | some s => exact ((Reads.pure Frame.unit).skip |>.field (htext s)).tagged rfl (by simp)
      | some v =>
          have hv := hresult v rfl
          cases text with
          | none => exact ((Reads.pure Frame.unit).field hv |>.skip).tagged rfl (by simp)
          | some s =>
              exact ((Reads.pure Frame.unit).field hv |>.field (htext s)).tagged rfl (by simp)
  | begin container =>
      exact ((Reads.pure Frame.begin).field (recovers_container container .buffered)).tagged rfl
        (by simp)
  | part items =>
      have hitems : Recovers written Decoder.json .buffered items items :=
        .json (fun hw => Json.readable_object.mp (hread hw) ("items", items) (by simp)) h
      exact ((Reads.pure Frame.part).field hitems).tagged rfl (by simp)
  | finish => exact .tagged (.bare _) rfl (by simp)
  | failed operation message =>
      exact ((Reads.pure Frame.failed).field (.string operation) |>.field (.string message)).tagged
        rfl (by simp)

/-- **Whoever reads the line of a frame reads the frame.** -/
theorem Frame.ofText_line (h : f.Sendable) (hread : f.encode.Readable)
    (hdepth : (Json.Document.ofJson f.encode).depth ≤ Json.nestingLimit) :
    Frame.decoder.ofText f.line = .ok f :=
  (recovers_frame h (fun _ => hread) .text).ofText_line hdepth

/-! ### What is sent can be read back -/

theorem sendable_parts {α : Type} (container : Container) {wrap : α → Json} {pieces : List α}
    (h : ∀ a ∈ pieces, (wrap a).Ordered) :
    ∀ f ∈ .begin container :: pieces.map (fun a => Frame.part (wrap a)) ++ [.finish],
      f.Sendable := by
  refine List.forall_mem_append.mpr ⟨List.forall_mem_cons.mpr ⟨trivial, ?_⟩, ?_⟩
  · exact List.forall_mem_map.mpr h
  · exact List.forall_mem_singleton.mpr trivial

/-- **Frames that carry a value in order can be told from what is read of them.** -/
theorem Carries.sendable (h : Carries v frames) (hv : v.Ordered ∧ v ≠ .null) :
    ∀ f ∈ frames, f.Sendable := by
  cases h with
  | result => simp [Frame.Sendable, hv]
  | text => simp [Frame.Sendable]
  | both => simp [Frame.Sendable, hv]
  | @list parts h =>
      subst h
      have hitems := Json.ordered_array.mp hv.1
      exact sendable_parts .list fun js hjs =>
        Json.ordered_array.mpr fun j hj => hitems j (List.mem_flatten_of_mem hjs hj)
  | @map parts h hnames =>
      subst h
      obtain ⟨hmembers, hvalues⟩ := Json.ordered_object.mp hv.1
      exact sendable_parts .map fun ms hms => Json.ordered_object.mpr
        ⟨hmembers.sublist (List.sublist_flatten_of_mem hms),
          fun m hm => hvalues m (List.mem_flatten_of_mem hms hm)⟩

end BytecodeIR.Service
