import BytecodeIR.Decimal.Rounding
import BytecodeIR.SortedMap
/-!
JSON values.

An object is the list of its members in the order in which they are written.  Values that are kept
or compared are in sorted form, each name once and the names in increasing order at every level;
`Json.sorted` brings a value into that form.
-/

namespace BytecodeIR

/-- A JSON number: an integer of at most 64 bits, or a double. -/
inductive Json.Number where
  /-- A number written without point and exponent. -/
  | integer (i : Int)
  /-- Any other number. -/
  | real (x : Double)
deriving DecidableEq, Inhabited

/-- A JSON value. -/
inductive Json where
  | null
  | bool (b : Bool)
  | number (n : Json.Number)
  | string (s : String)
  | array (items : List Json)
  | object (members : List (String × Json))
deriving Inhabited

namespace Json

/-- An integer as a JSON value. -/
def integer (i : Int) : Json := .number (.integer i)

/-- A natural number as a JSON value. -/
def natural (n : Nat) : Json := .integer n

/-- A list as an array, item by item. -/
def list {α : Type} (encode : α → Json) (xs : List α) : Json := .array (xs.map encode)

/-- A list of texts as an array. -/
def texts (xs : List String) : Json := list Json.string xs

/-- An optional value, `null` standing for none. -/
def option {α : Type} (encode : α → Json) : Option α → Json
  | none => .null
  | some a => encode a

/-- The members of an object with each name once, the last one of a name kept, in increasing order
of the names. -/
def sortMembers (members : List (String × Json)) : List (String × Json) :=
  (SortedMap.ofList members).entries

mutual

/-- The value with the members of every object sorted. -/
def sorted : Json → Json
  | .array items => .array (sortedItems items)
  | .object members => .object (sortMembers (sortedMembers members))
  | .null => .null
  | .bool b => .bool b
  | .number n => .number n
  | .string s => .string s

/-- Every item of an array in sorted form. -/
def sortedItems : List Json → List Json
  | [] => []
  | j :: rest => j.sorted :: sortedItems rest

/-- Every member's value in sorted form. -/
def sortedMembers : List (String × Json) → List (String × Json)
  | [] => []
  | (name, j) :: rest => (name, j.sorted) :: sortedMembers rest

end

/-- The text that a JSON value is, if it is one. -/
def asText? : Json → Option String
  | .string s => some s
  | _ => none

end Json

end BytecodeIR
