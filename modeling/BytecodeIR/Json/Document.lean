import BytecodeIR.Json.Numeral
import BytecodeIR.Json.Printer
/-!
A JSON text as far as it can be read.

Reading a text never fails here.  Where the grammar is violated the tree has a node that says so,
and containers say whether their end was reached; a value of correct grammar that nothing can be
made of (a number that no double holds, half of a surrogate pair) and a container below the nesting
limit are nodes as well.  Whoever wants a particular value walks the tree in the order of the text
and so meets, of several faults, the first one that matters to it: a fault in a part that is never
looked at costs nothing.
-/

namespace BytecodeIR.Json

/-- The most brackets that may be open at once in a text that is read. -/
def nestingLimit : Nat := 127

/-- What an object's member is called. -/
inductive Key.Name where
  /-- A string. -/
  | text (s : String)
  /-- A string with half of a surrogate pair. -/
  | unreadable
  /-- Nothing that the grammar allows: no string, or one that does not end. -/
  | broken
deriving DecidableEq, Inhabited

/-- What the characters after the opening quote are as a number. -/
inductive Key.Numeral where
  /-- They do not begin with a number. -/
  | absent
  /-- They begin with a number, and the closing quote follows it or does not. -/
  | number (n : Number) (closed : Bool)
deriving DecidableEq, Inhabited

/-- The key of an object's member, read as a string and as a number. -/
structure Key where
  /-- The key as a string. -/
  name : Key.Name
  /-- The key as a number. -/
  numeral : Key.Numeral
deriving DecidableEq, Inhabited

/-- A JSON text as far as it can be read. -/
inductive Document where
  | null
  | bool (b : Bool)
  | number (n : Number)
  | string (s : String)
  /-- A scalar of correct grammar without a value. -/
  | unreadable
  /-- Nothing that the grammar allows. -/
  | broken
  /-- A container below the nesting limit. -/
  | tooDeep (isArray : Bool) (closed : Bool)
  /-- An array, and whether its end was reached. -/
  | array (items : List Document) (closed : Bool)
  /-- An object, and whether its end was reached. -/
  | object (members : List (Key × Document)) (closed : Bool)
deriving Inhabited

/-! ### Strings -/

/-- A piece of a string: a character, or the 16-bit unit of a numeric escape. -/
inductive Piece where
  | char (c : Char)
  | unit (n : Nat)
deriving DecidableEq

/-- The value of a hexadecimal digit of either case. -/
def hexValue? (c : Char) : Option Nat :=
  if '0' ≤ c ∧ c ≤ '9' then some (c.toNat - '0'.toNat)
  else if 'a' ≤ c ∧ c ≤ 'f' then some (c.toNat - 'a'.toNat + 10)
  else if 'A' ≤ c ∧ c ≤ 'F' then some (c.toNat - 'A'.toNat + 10)
  else none

/-- The number that four hexadecimal digits denote. -/
def hexUnit? (a b c d : Char) : Option Nat := do
  pure (((← hexValue? a) * 16 + (← hexValue? b)) * 256 + ((← hexValue? c) * 16 + (← hexValue? d)))

/-- The character that a one-letter escape denotes. -/
def simpleEscape? (c : Char) : Option Char :=
  if c = '"' then some '"'
  else if c = '\\' then some '\\'
  else if c = '/' then some '/'
  else if c = 'b' then some '\x08'
  else if c = 'f' then some '\x0c'
  else if c = 'n' then some '\n'
  else if c = 'r' then some '\r'
  else if c = 't' then some '\t'
  else none

/-- The pieces up to the closing quote, and what follows it. -/
def scanPieces (done : List Piece) : List Char → Option (List Piece × List Char)
  | [] => none
  | '"' :: rest => some (done.reverse, rest)
  | '\\' :: 'u' :: a :: b :: c :: d :: rest =>
    match hexUnit? a b c d with
    | some n => scanPieces (.unit n :: done) rest
    | none => none
  | '\\' :: e :: rest =>
    match simpleEscape? e with
    | some c => scanPieces (.char c :: done) rest
    | none => none
  | c :: rest =>
    if c = '\\' ∨ c.toNat < 0x20 then none else scanPieces (.char c :: done) rest

/-- The characters of a string's pieces; none if half of a surrogate pair stands alone. -/
def joinPieces? (done : List Char) : List Piece → Option (List Char)
  | [] => some done.reverse
  | .char c :: rest => joinPieces? (c :: done) rest
  | .unit n :: rest =>
    if n < 0xd800 ∨ 0xe000 ≤ n then joinPieces? (Char.ofNat n :: done) rest
    else
      match rest with
      | .unit m :: more =>
        if n < 0xdc00 ∧ 0xdc00 ≤ m ∧ m < 0xe000 then
          joinPieces? (Char.ofNat (0x10000 + (n - 0xd800) * 0x400 + (m - 0xdc00)) :: done) more
        else none
      | _ => none

/-- Reads a string after its opening quote: the string if it is one, and what follows it. -/
def scanString (cs : List Char) : Option (Option String × List Char) :=
  (scanPieces [] cs).map fun (pieces, rest) => ((joinPieces? [] pieces).map String.ofList, rest)

/-- Reads the characters after an opening quote as a number. -/
def scanKeyNumeral (cs : List Char) : Key.Numeral :=
  match Numeral.ofChars? cs with
  | none => .absent
  | some (numeral, rest) =>
    match numeral.value? with
    | none => .absent
    | some n => .number n (rest.head? == some '"')

/-! ### Values -/

/-- Whether a character may stand between the tokens of a text. -/
def isSpace (c : Char) : Bool := c = ' ' || c = '\n' || c = '\t' || c = '\r'

/-- A text without the space at its start. -/
def skipSpace (cs : List Char) : List Char := cs.dropWhile isSpace

/-- A node together with the text after it; there is none if the grammar is violated before the
node's end. -/
structure Scan (α : Type) where
  node : α
  rest : Option (List Char)

/-- Reads a scalar that is no string. -/
def scanScalar (cs : List Char) : Scan Document :=
  match cs with
  | 'n' :: 'u' :: 'l' :: 'l' :: rest => ⟨.null, some rest⟩
  | 't' :: 'r' :: 'u' :: 'e' :: rest => ⟨.bool true, some rest⟩
  | 'f' :: 'a' :: 'l' :: 's' :: 'e' :: rest => ⟨.bool false, some rest⟩
  | cs =>
    match Numeral.ofChars? cs with
    | none => ⟨.broken, none⟩
    | some (numeral, rest) =>
      match numeral.value? with
      | none => ⟨.unreadable, some rest⟩
      | some n => ⟨.number n, some rest⟩

mutual

/-- Reads the value at the start of a text, `room` more brackets being allowed. -/
def scanValue : Nat → Nat → List Char → Scan Document
  | 0, _, _ => ⟨.broken, none⟩
  | fuel + 1, room, cs =>
    match skipSpace cs with
    | '"' :: rest =>
      match scanString rest with
      | none => ⟨.broken, none⟩
      | some (none, after) => ⟨.unreadable, some after⟩
      | some (some s, after) => ⟨.string s, some after⟩
    | '[' :: rest =>
      let scan : Scan (List Document) := match skipSpace rest with
        | ']' :: after => ⟨[], some after⟩
        | body => scanItems fuel (room - 1) body
      ⟨if room = 0 then .tooDeep true scan.rest.isSome else .array scan.node scan.rest.isSome,
        scan.rest⟩
    | '\x7b' :: rest =>
      let scan : Scan (List (Key × Document)) := match skipSpace rest with
        | '\x7d' :: after => ⟨[], some after⟩
        | body => scanMembers fuel (room - 1) body
      ⟨if room = 0 then .tooDeep false scan.rest.isSome else .object scan.node scan.rest.isSome,
        scan.rest⟩
    | body => scanScalar body

/-- Reads the items of an array, at least one, and its closing bracket. -/
def scanItems : Nat → Nat → List Char → Scan (List Document)
  | 0, _, _ => ⟨[], none⟩
  | fuel + 1, room, cs =>
    let item := scanValue fuel room cs
    match item.rest.map skipSpace with
    | some (']' :: after) => ⟨[item.node], some after⟩
    | some (',' :: after) =>
      match skipSpace after with
      | ']' :: _ => ⟨[item.node], none⟩
      | body =>
        let more := scanItems fuel room body
        ⟨item.node :: more.node, more.rest⟩
    | _ => ⟨[item.node], none⟩

/-- Reads the members of an object, at least one, and its closing brace. -/
def scanMembers : Nat → Nat → List Char → Scan (List (Key × Document))
  | 0, _, _ => ⟨[], none⟩
  | fuel + 1, room, cs =>
    match cs with
    | '"' :: rest =>
      let numeral := scanKeyNumeral rest
      match scanString rest with
      | none => ⟨[(⟨.broken, numeral⟩, .broken)], none⟩
      | some (name, after) =>
        let key : Key := ⟨match name with | some s => .text s | none => .unreadable, numeral⟩
        match skipSpace after with
        | ':' :: body =>
          let value := scanValue fuel room body
          match value.rest.map skipSpace with
          | some ('\x7d' :: after) => ⟨[(key, value.node)], some after⟩
          | some (',' :: after) =>
            match skipSpace after with
            | '\x7d' :: _ => ⟨[(key, value.node)], none⟩
            | body =>
              let more := scanMembers fuel room body
              ⟨(key, value.node) :: more.node, more.rest⟩
          | _ => ⟨[(key, value.node)], none⟩
        | _ => ⟨[(key, .broken)], none⟩
    | _ => ⟨[(⟨.broken, .absent⟩, .broken)], none⟩

end

/-- A whole text: its value, and whether nothing but space follows it. -/
structure Text where
  root : Document
  ended : Bool

/-- Reads a whole text.  A bracket costs two steps and every other character at most two, so the
fuel does not run out. -/
def Text.ofString (s : String) : Text :=
  let cs := s.toList
  let scan := scanValue (2 * cs.length + 2) nestingLimit cs
  ⟨scan.node, match scan.rest with | some rest => (skipSpace rest).isEmpty | none => false⟩

/-! ### Documents without a fault -/

namespace Document

/-- Whether a node and what follows it can be passed over. -/
def isSkippable : Document → Bool
  | .broken => false
  | .tooDeep _ closed => closed
  | .array _ closed => closed
  | .object _ closed => closed
  | _ => true

mutual

/-- Whether a value can be made of every part of the node. -/
def isReadable : Document → Bool
  | .unreadable => false
  | .broken => false
  | .tooDeep _ _ => false
  | .array items closed => closed && allReadable items
  | .object members closed => closed && allMembersReadable members
  | .null => true
  | .bool _ => true
  | .number _ => true
  | .string _ => true

/-- Whether every item of an array is readable. -/
def allReadable : List Document → Bool
  | [] => true
  | d :: rest => d.isReadable && allReadable rest

/-- Whether every member of an object has a name and a readable value. -/
def allMembersReadable : List (Key × Document) → Bool
  | [] => true
  | (key, d) :: rest =>
    (match key.name with | .text _ => true | _ => false) && d.isReadable && allMembersReadable rest

end

mutual

/-- The value of a readable node; an object keeps the last member of each name. -/
def toJson : Document → Json
  | .bool b => .bool b
  | .number n => .number n
  | .string s => .string s
  | .array items _ => .array (itemsToJson items)
  | .object members _ => .object (sortMembers (membersToJson members))
  | .null => .null
  | .unreadable => .null
  | .broken => .null
  | .tooDeep _ _ => .null

/-- The values of an array's items. -/
def itemsToJson : List Document → List Json
  | [] => []
  | d :: rest => d.toJson :: itemsToJson rest

/-- The names and values of an object's members. -/
def membersToJson : List (Key × Document) → List (String × Json)
  | [] => []
  | (key, d) :: rest =>
    (match key.name with | .text s => s | _ => "", d.toJson) :: membersToJson rest

end

mutual

/-- How many brackets are open at once inside the node, its own included. -/
def depth : Document → Nat
  | .array items _ => itemsDepth items + 1
  | .object members _ => membersDepth members + 1
  | .null => 0
  | .bool _ => 0
  | .number _ => 0
  | .string _ => 0
  | .unreadable => 0
  | .broken => 0
  | .tooDeep _ _ => 0

/-- The greatest depth of an array's items. -/
def itemsDepth : List Document → Nat
  | [] => 0
  | d :: rest => max d.depth (itemsDepth rest)

/-- The greatest depth of an object's values. -/
def membersDepth : List (Key × Document) → Nat
  | [] => 0
  | (_, d) :: rest => max d.depth (membersDepth rest)

end

/-- The key that a name is written as. -/
def keyOf (name : String) : Key := ⟨.text name, scanKeyNumeral (writeEscaped name.toList [])⟩

mutual

/-- A value as a document: nothing in it is at fault. -/
def ofJson : Json → Document
  | .null => .null
  | .bool b => .bool b
  | .number n => .number n
  | .string s => .string s
  | .array items => .array (ofItems items) true
  | .object members => .object (ofMembers members) true

/-- The items of an array as documents. -/
def ofItems : List Json → List Document
  | [] => []
  | j :: rest => ofJson j :: ofItems rest

/-- The members of an object as documents under their keys. -/
def ofMembers : List (String × Json) → List (Key × Document)
  | [] => []
  | (name, j) :: rest => (keyOf name, ofJson j) :: ofMembers rest

end

end Document

end BytecodeIR.Json
