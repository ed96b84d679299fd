import BytecodeIR.Json.Value
import BytecodeIR.Decimal.Layout
/-!
The compact text of a JSON value.

A value is written in front of a text that follows it, so that no text is ever copied and the
reader's side of a round trip can be stated for any continuation.  There are no blanks; a string
escapes the quote, the backslash and the controls, and everything else stands as itself.
-/

namespace BytecodeIR.Json

/-- The lower-case hexadecimal digit of a number below sixteen. -/
def hexDigit (n : Nat) : Char := Nat.digitChar (n % 16)

/-- A character inside a JSON string. -/
def escape (c : Char) : List Char :=
  if c = '"' then ['\\', '"']
  else if c = '\\' then ['\\', '\\']
  else if c = '\x08' then ['\\', 'b']
  else if c = '\x0c' then ['\\', 'f']
  else if c = '\n' then ['\\', 'n']
  else if c = '\r' then ['\\', 'r']
  else if c = '\t' then ['\\', 't']
  else if c.toNat < 0x20 then ['\\', 'u', '0', '0', hexDigit (c.toNat / 16), hexDigit c.toNat]
  else [c]

/-- Writes a string and its closing quote in front of `rest`. -/
def writeEscaped (cs : List Char) (rest : List Char) : List Char :=
  cs.foldr (fun c tail => escape c ++ tail) ('"' :: rest)

/-- Writes a string in front of `rest`. -/
def writeString (s : String) (rest : List Char) : List Char := '"' :: writeEscaped s.toList rest

/-- Writes an integer in front of `rest`. -/
def writeInteger (i : Int) (rest : List Char) : List Char :=
  if i < 0 then '-' :: (Nat.toDigits 10 i.natAbs ++ rest) else Nat.toDigits 10 i.natAbs ++ rest

/-- Writes a number in front of `rest`; what is no number of the format is written `null`. -/
def Number.write : Number → List Char → List Char
  | .integer i, rest => writeInteger i rest
  | .real x, rest => (if x.isFinite then (x.text .json).toList else "null".toList) ++ rest

mutual

/-- Writes a value in front of `rest`. -/
def write : Json → List Char → List Char
  | .null, rest => 'n' :: 'u' :: 'l' :: 'l' :: rest
  | .bool true, rest => 't' :: 'r' :: 'u' :: 'e' :: rest
  | .bool false, rest => 'f' :: 'a' :: 'l' :: 's' :: 'e' :: rest
  | .number n, rest => n.write rest
  | .string s, rest => writeString s rest
  | .array [], rest => '[' :: ']' :: rest
  | .array (j :: js), rest => '[' :: j.write (writeItems js rest)
  | .object [], rest => '\x7b' :: '\x7d' :: rest
  | .object ((name, j) :: ms), rest =>
    '\x7b' :: writeString name (':' :: j.write (writeMembers ms rest))

/-- Writes the items after the first one, and the closing bracket. -/
def writeItems : List Json → List Char → List Char
  | [], rest => ']' :: rest
  | j :: js, rest => ',' :: j.write (writeItems js rest)

/-- Writes the members after the first one, and the closing brace. -/
def writeMembers : List (String × Json) → List Char → List Char
  | [], rest => '\x7d' :: rest
  | (name, j) :: ms, rest => ',' :: writeString name (':' :: j.write (writeMembers ms rest))

end

/-- The compact text of a value. -/
def text (j : Json) : String := String.ofList (j.write [])

end BytecodeIR.Json
