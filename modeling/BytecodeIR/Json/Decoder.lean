import BytecodeIR.Json.Document
/-!
Reading values of a given type out of JSON.

A decoder looks at a document and answers with a value or with the first problem that it meets, in
the order of the text.  Problems are of two categories: the text is malformed, or it is JSON of
another shape than the type needs.  The same decoder reads a text, a value that was set aside while
a text was read, and a value that was built in memory; these sources differ in a few places, such
as what an array with too many elements counts as.
-/

namespace BytecodeIR.Json

/-- Where a document comes from. -/
inductive Source where
  /-- It is read from a text from left to right. -/
  | text
  /-- It was set aside until a tag was found that says what it is. -/
  | buffered
  /-- It is a value built in memory. -/
  | tree
deriving DecidableEq

/-- Why a document is not a value of the wanted type. -/
inductive Problem where
  /-- The text is no JSON, is cut short or followed by more, or nests too deeply. -/
  | malformed
  /-- The JSON has another shape. -/
  | wrongShape
  /-- A field without a default is absent. -/
  | missingField (name : String)
  /-- A field is given twice. -/
  | duplicateField (name : String)
  /-- A name is none of those that the type has. -/
  | unknownVariant (name : String) (expected : List String)
  /-- The shape is right, and the type has an objection of its own. -/
  | refused (message : String)
deriving DecidableEq, Inhabited

namespace Problem

/-- A name between backticks. -/
def ticked (name : String) : String := "\x60" ++ name ++ "\x60"

/-- The alternatives of a type, as messages list them. -/
def alternatives : List String → String
  | [a] => ticked a
  | [a, b] => ticked a ++ " or " ++ ticked b
  | names => "one of " ++ ", ".intercalate (names.map ticked)

/-- The wording of a problem, for those problems that have a fixed one. -/
def message? : Problem → Option String
  | .malformed => none
  | .wrongShape => none
  | .missingField name => some ("missing field " ++ ticked name)
  | .duplicateField name => some ("duplicate field " ++ ticked name)
  | .unknownVariant name expected =>
    some ("unknown variant " ++ ticked name ++ ", expected " ++ alternatives expected)
  | .refused message => some message

/-- The wording of a problem, or a stand-in for those that have none. -/
def message (p : Problem) : String := p.message?.getD "<json error>"

/-- Whether the text itself is at fault rather than what it says. -/
def isMalformed (p : Problem) : Bool := p == .malformed

end Problem

/-- Reads a value of a type out of a document. -/
abbrev Decoder (α : Type) := Source → Document → Except Problem α

namespace Document

/-- The problem of a node that was expected to be a scalar of another kind. -/
def refusal : Document → Problem
  | .unreadable => .malformed
  | .broken => .malformed
  | _ => .wrongShape

/-- The problem of a node that is entered whatever container it is. -/
def entryRefusal : Document → Problem
  | .tooDeep _ _ => .malformed
  | d => d.refusal

/-- The problem of a node that was expected to be an array. -/
def arrayRefusal : Document → Problem
  | .tooDeep true _ => .malformed
  | d => d.refusal

/-- The problem of a node that was expected to be an object. -/
def objectRefusal : Document → Problem
  | .tooDeep false _ => .malformed
  | d => d.refusal

end Document

namespace Decoder

variable {α β : Type}

/-- Reads a whole text. -/
def ofText (d : Decoder α) (s : String) : Except Problem α := do
  let text := Text.ofString s
  let a ← d .text text.root
  if text.ended then pure a else throw .malformed

/-- Reads a value built in memory. -/
def ofJson (d : Decoder α) (j : Json) : Except Problem α := d .tree (Document.ofJson j)

/-- Changes what is read. -/
def map (f : α → β) (d : Decoder α) : Decoder β := fun src doc => (d src doc).map f

/-- Reads on with what has been read. -/
def andThen (d : Decoder α) (f : α → Except Problem β) : Decoder β :=
  fun src doc => d src doc >>= f

/-! ### Scalars -/

/-- Reads a text. -/
def string : Decoder String := fun _ doc =>
  match doc with
  | .string s => .ok s
  | doc => .error doc.refusal

/-- Reads a truth value. -/
def bool : Decoder Bool := fun _ doc =>
  match doc with
  | .bool b => .ok b
  | doc => .error doc.refusal

/-- Reads an integer between two bounds, which are included. -/
def integer (low high : Int) : Decoder Int := fun _ doc =>
  match doc with
  | .number (.integer i) => if low ≤ i ∧ i ≤ high then .ok i else .error .wrongShape
  | doc => .error doc.refusal

/-- Reads an unsigned integer of 32 bits. -/
def uint32 : Decoder UInt32 := (integer 0 (UInt32.size - 1)).map fun i => .ofNat i.toNat

/-- Reads an unsigned integer of 64 bits. -/
def uint64 : Decoder UInt64 := (integer 0 (UInt64.size - 1)).map fun i => .ofNat i.toNat

/-- Reads a signed integer of 32 bits. -/
def int32 : Decoder Int32 := (integer Int32.minValue.toInt Int32.maxValue.toInt).map .ofInt

/-- Reads a signed integer of 64 bits. -/
def int64 : Decoder Int64 := (integer Int64.minValue.toInt Int64.maxValue.toInt).map .ofInt

/-! ### Containers -/

/-- Reads an optional value, `null` standing for none. -/
def option (d : Decoder α) : Decoder (Option α) := fun src doc =>
  match doc with
  | .null => .ok none
  | doc => (d src doc).map some

/-- Reads an array of any length. -/
def list (d : Decoder α) : Decoder (List α) := fun src doc =>
  match doc with
  | .array items closed => do
    let xs ← items.mapM (d src)
    if closed then pure xs else throw .malformed
  | doc => .error doc.arrayRefusal

/-- The problem of an array with more elements than are wanted. -/
def surplus (src : Source) : Problem := if src = .text then .malformed else .wrongShape

/-- Reads an array of exactly two elements. -/
def pair (first : Decoder α) (second : Decoder β) : Decoder (α × β) := fun src doc =>
  match doc with
  | .array items closed =>
    let short : Problem := if closed then .wrongShape else .malformed
    match items with
    | [] => .error short
    | [a] => do
      let _ ← first src a
      throw short
    | a :: b :: rest => do
      let x ← first src a
      let y ← second src b
      if rest.isEmpty then
        if closed then pure (x, y) else throw .malformed
      else throw (surplus src)
  | doc => .error doc.arrayRefusal

/-- Reads the entries of an object whose keys are read by `key`, in the order of the text. -/
def entries (key : Source → Key → Except Problem α) (value : Decoder β) :
    Decoder (List (α × β)) := fun src doc =>
  match doc with
  | .object members closed => do
    let es ← members.mapM fun m => do
      let k ← key src m.1
      let v ← value src m.2
      pure (k, v)
    if closed then pure es else throw .malformed
  | doc => .error doc.objectRefusal

/-- Reads a key as a text. -/
def textKey (_ : Source) (key : Key) : Except Problem String :=
  match key.name with
  | .text s => .ok s
  | _ => .error .malformed

/-- Reads a key as an unsigned integer of 32 bits.  A key that was set aside stays a text. -/
def uint32Key (src : Source) (key : Key) : Except Problem UInt32 :=
  match src with
  | .buffered => .error .wrongShape
  | _ =>
    match key.numeral with
    | .number (.integer i) closed =>
      if 0 ≤ i ∧ i < UInt32.size then
        if closed then .ok (.ofNat i.toNat) else .error .malformed
      else .error .wrongShape
    | .number _ _ => .error .wrongShape
    | .absent => .error .malformed

/-- Reads any value and sorts its objects. -/
def json : Decoder Json := fun _ doc =>
  if doc.isReadable then .ok doc.toJson else .error .malformed

/-- Reads an object with values of any kind. -/
def jsonObject : Decoder (SortedMap String Json) := fun src doc =>
  match doc with
  | .object _ _ => (entries textKey json src doc).map .ofList
  | doc => .error doc.objectRefusal

/-! ### Names -/

/-- The value that a name stands for. -/
def ofName (values : List (String × α)) (name : String) : Except Problem α :=
  match values.lookup name with
  | some a => .ok a
  | none => .error (.unknownVariant name (values.map (·.1)))

/-- Reads one of a fixed list of names.  A name may also be the only member of an object, with the
value `null`. -/
def named (values : List (String × α)) : Decoder α := fun src doc =>
  match src, doc with
  | _, .string s => ofName values s
  | .text, .object ((key, d) :: rest) closed =>
    match key.name with
    | .text s => do
      let a ← ofName values s
      match d with
      | .null => if rest.isEmpty ∧ closed then pure a else throw .malformed
      | d => throw d.refusal
    | _ => .error .malformed
  | .text, _ => .error .malformed
  | src, .object [(⟨.text s, _⟩, d)] _ => do
    let a ← ofName values s
    match src, d with
    | _, .null => pure a
    | .buffered, .object [] _ => pure a
    | _, _ => throw .wrongShape
  | _, _ => .error .wrongShape

end Decoder

end BytecodeIR.Json
