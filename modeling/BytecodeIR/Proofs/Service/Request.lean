/-
A request is told from its line.

What a client prints for a request is read as that request: the fields are told by
their names, and each recovers what was put there.  The arguments of a request are
values of any kind, and a reader sorts the objects in them; so it is asked that they are
in order.  The number of parts is read as an unsigned word of 64 bits.
-/
import BytecodeIR.Proofs.Json.Record
import BytecodeIR.Service.Request

namespace BytecodeIR.Service

open Json (Decoder Recovers)
open Json.Record (Reads)

variable {written : Prop} {t : Transport} {r : Request}

/-- A request that keeps what a reader can tell of it: its arguments are in order, and a word holds
the number of parts. -/
structure Request.Printable (r : Request) : Prop where
  args : ∀ j ∈ r.args, j.Ordered
  named : ∀ e ∈ r.named.entries, e.2.Ordered
  parts : r.transport.parts < UInt64.size

/-- An object of values of any kind is recovered from its entries. -/
theorem recovers_jsonObject {m : SortedMap String Json} {src : Json.Source}
    (h : ∀ e ∈ m.entries, Recovers written Decoder.json src e.2 e.2) :
    Recovers written Decoder.jsonObject src (.object m.entries) m := by
  have hvalues : ∀ e ∈ m.entries, Recovers written Decoder.json src (id e.2) e.2 := h
  have hentries := Recovers.entries (f := SortedMap.ofList) id
    (fun e _ => Json.textKey_keyOf src e.1) hvalues m.nodup_keys
    fun es' hperm => (SortedMap.ofList_eq_of_perm hperm.symm m.nodup_keys).symm
  have hsame : (m.entries.map fun e => (id e.1, id e.2)) = m.entries :=
    List.map_id'' (fun _ => rfl) _
  rw [SortedMap.ofList_entries, hsame] at hentries
  refine ⟨hentries.readable, hentries.distinct, fun hi => ?_⟩
  obtain ⟨os, rfl, -⟩ := Json.rearranged_object.mp hi
  exact hentries.reads hi

theorem recovers_transport (hparts : t.parts < UInt64.size) (src : Json.Source) :
    Recovers written Transport.decoder src t.encode t := by
  have hpath : Recovers written (Decoder.string.map Path.mk).option src
      (.option (fun p => .string p.text) t.saveTo) t.saveTo :=
    .option fun p _ => ⟨Json.noConfusion, (Recovers.string p.text).map Path.mk⟩
  have hcount : Recovers written (Decoder.uint64.map UInt64.toNat) src (.natural t.parts)
      t.parts := by
    have hword : Recovers written (Decoder.uint64.map UInt64.toNat) src _ _ :=
      (Recovers.uint64 (UInt64.ofNat t.parts)).map UInt64.toNat
    rwa [UInt64.toNat_ofNat_of_lt' hparts] at hword
  exact ((Reads.pure Transport.mk).field (.bool t.returnResult) |>.field (.bool t.returnText)
    |>.field hpath |>.field hcount).recovers (by simp)

/-- **A request is recovered from its JSON form.** -/
theorem recovers_request (h : r.Printable) (hread : written → r.encode.Readable)
    (src : Json.Source) : Recovers written Request.decoder src r.encode r := by
  have hargs : Recovers written (.list Decoder.json) src (.array r.args) r.args := by
    refine .array (List.forall₂_same.mpr fun j hj => .json (fun hw => ?_) (h.args j hj))
    have hread := Json.readable_object.mp (hread hw) ("args", .array r.args) (by simp)
    exact Json.readable_array.mp hread j hj
  have hnamed : Recovers written Decoder.jsonObject src (.object r.named.entries) r.named := by
    refine recovers_jsonObject fun e he => .json (fun hw => ?_) (h.named e he)
    have hread := Json.readable_object.mp (hread hw) ("kwargs", .object r.named.entries) (by simp)
    exact Json.readable_object.mp hread e he
  exact ((Reads.pure Request.mk).field (.string r.operation) |>.field hargs |>.field hnamed
    |>.field (recovers_transport h.parts src)).recovers (by simp)

/-- **Whoever reads the line of a request reads the request.** -/
theorem Request.ofText_line (h : r.Printable) (hread : r.encode.Readable)
    (hdepth : (Json.Document.ofJson r.encode).depth ≤ Json.nestingLimit) :
    Request.decoder.ofText (r.encode.text ++ "\n") = .ok r :=
  (recovers_request h (fun _ => hread) .text).ofText_line hdepth

end BytecodeIR.Service
