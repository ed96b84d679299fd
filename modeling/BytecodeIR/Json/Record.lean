import BytecodeIR.Json.Decoder
/-!
Reading records out of JSON.

A record is an object with named fields, or an array of the fields in their order.  The members of
an object may come in any order: they are read as they come, a name that is no field is passed over,
and a field that comes twice is a fault as soon as its name is met.  Only at the end of the object
are absent fields missed, in the order of the record.

A tagged value is an object or array in which one member, or the first element, says what the
others are.  The tag may come last, so the other members are set aside until it is known.
-/

namespace BytecodeIR.Json

/-- What an absent field means. -/
inductive Absent (α : Type) where
  /-- The field is needed. -/
  | missing
  /-- The field has this value, in an object as well as at the end of an array. -/
  | default (a : α)
  /-- The field has this value in an object; an array has to give it. -/
  | implied (a : α)

/-- Reads the fields of a record. -/
structure Record (α : Type) : Type 1 where
  /-- The fields read so far. -/
  Progress : Type
  /-- No field has been read. -/
  start : Progress
  /-- Reads a member of an object; none if its name is no field of the record. -/
  member : Source → String → Document → Progress → Except Problem (Option Progress)
  /-- The record of an object of which all members have been read. -/
  finish : Progress → Except Problem α
  /-- Reads the fields from the start of an array, of which the end was reached or not; the
  elements left over are returned. -/
  elements : Source → List Document → Bool → Except Problem (α × List Document)

namespace Record

variable {α β : Type}

/-- A record of one field. -/
def field (name : String) (d : Decoder α) (absent : Absent α) : Record α where
  Progress := Option α
  start := none
  member src key doc found :=
    if key = name then
      match found with
      | some _ => .error (.duplicateField name)
      | none => (d src doc).map fun a => some (some a)
    else .ok none
  finish found :=
    match found, absent with
    | some a, _ => .ok a
    | none, .missing => .error (.missingField name)
    | none, .default a => .ok a
    | none, .implied a => .ok a
  elements src docs closed :=
    match docs with
    | doc :: rest => (d src doc).map fun a => (a, rest)
    | [] =>
      if ¬ closed then .error .malformed
      else
        match absent with
        | .default a => .ok (a, [])
        | _ => .error .wrongShape

/-- A record without fields. -/
def pure (a : α) : Record α where
  Progress := Unit
  start := ()
  member _ _ _ _ := .ok none
  finish _ := .ok a
  elements _ docs _ := .ok (a, docs)

/-- Two records as one, the fields of the second after those of the first. -/
def seq (f : Record (α → β)) (r : Record α) : Record β where
  Progress := f.Progress × r.Progress
  start := (f.start, r.start)
  member src key doc p := do
    match ← f.member src key doc p.1 with
    | some q => .ok (some (q, p.2))
    | none => (r.member src key doc p.2).map (·.map fun q => (p.1, q))
  finish p := do
    let g ← f.finish p.1
    let a ← r.finish p.2
    .ok (g a)
  elements src docs closed := do
    let (g, docs) ← f.elements src docs closed
    let (a, docs) ← r.elements src docs closed
    .ok (g a, docs)

instance : Pure Record := ⟨pure⟩

instance : Seq Record := ⟨fun f r => seq f (r ())⟩

instance : Functor Record := ⟨fun f r => seq (pure f) r, fun a r => seq (pure fun _ => a) r⟩

/-- A field that has to be given. -/
def required (name : String) (d : Decoder α) : Record α := field name d .missing

/-- A field that has a default. -/
def defaulted (name : String) (d : Decoder α) (a : α) : Record α := field name d (.default a)

/-- A field that may be absent or `null`. -/
def optional (name : String) (d : Decoder α) : Record (Option α) :=
  field name d.option (.default none)

/-- A field that may be `null`, or absent from an object. -/
def nullable (name : String) (d : Decoder α) : Record (Option α) :=
  field name d.option (.implied none)

/-- Reads the members of an object. -/
def readMembers (r : Record α) (src : Source) :
    List (Key × Document) → r.Progress → Except Problem r.Progress
  | [], p => .ok p
  | (key, doc) :: rest, p =>
    match key.name with
    | .text name => do
      match ← r.member src name doc p with
      | some q => r.readMembers src rest q
      | none => if doc.isSkippable then r.readMembers src rest p else .error .malformed
    | _ => .error .malformed

/-- Reads a record from an object or an array. -/
def decoder (r : Record α) : Decoder α := fun src doc =>
  match doc with
  | .object members closed => do
    let p ← r.readMembers src members r.start
    if closed then r.finish p else throw .malformed
  | .array items closed => do
    let (a, rest) ← r.elements src items closed
    if rest.isEmpty then
      if closed then .ok a else throw .malformed
    else throw (Decoder.surplus src)
  | doc => .error doc.entryRefusal

end Record

namespace Decoder

variable {α : Type}

/-- A value without fields, after its tag. -/
def bare (a : α) : Decoder α := fun src doc =>
  match doc with
  | .object _ _ => .ok a
  | .array items _ => if items.isEmpty then .ok a else .error (surplus src)
  | doc => .error doc.entryRefusal

/-- Reads a tag: the name of a variant, or for a value that was set aside also its position. -/
def readTag (variants : List (String × Decoder α)) (src : Source) (doc : Document) :
    Except Problem (Decoder α) :=
  match src, doc with
  | _, .string name => ofName variants name
  | .buffered, .number (.integer i) =>
    match if 0 ≤ i then variants[i.toNat]? else none with
    | some v => .ok v.2
    | none => .error .wrongShape
  | _, doc => .error doc.refusal

/-- Looks for the tag among the members of an object and sets the others aside. -/
def splitTag (tag : String) (variants : List (String × Decoder α)) (src : Source) :
    List (Key × Document) → Option (Decoder α) → List (Key × Document) →
    Except Problem (Option (Decoder α) × List (Key × Document))
  | [], found, others => .ok (found, others.reverse)
  | (key, doc) :: rest, found, others =>
    match key.name with
    | .text name =>
      if name = tag then
        match found with
        | some _ => .error (.duplicateField tag)
        | none => do
          let d ← readTag variants src doc
          splitTag tag variants src rest (some d) others
      else if doc.isReadable then splitTag tag variants src rest found ((key, doc) :: others)
      else .error .malformed
    | _ => .error .malformed

/-- Reads a value of which a member, or the first element, says which variant it is. -/
def tagged (tag : String) (variants : List (String × Decoder α)) : Decoder α := fun src doc =>
  match doc with
  | .object members closed => do
    let (found, others) ← splitTag tag variants src members none []
    if ¬ closed then throw .malformed
    else
      match found with
      | none => throw (.missingField tag)
      | some d => d .buffered (.object others true)
  | .array [] closed => .error (if closed then .missingField tag else .malformed)
  | .array (first :: rest) closed => do
    let d ← readTag variants src first
    if closed ∧ Document.allReadable rest then d .buffered (.array rest true)
    else throw .malformed
  | doc => .error doc.entryRefusal

end Decoder

end BytecodeIR.Json
