import BytecodeIR.Text.Printable
/-!
Quoted text as it appears in listings and messages.

Between the quotes every character that can be shown stands as itself.  The quote, the backslash and
the usual controls have two-character escapes; every other character that cannot be shown is written
by its number, `\u{301}`.
-/

namespace BytecodeIR.Text

/-- One character inside double quotes. -/
def escape (c : Char) : List Char :=
  if c = '"' then ['\\', '"']
  else if c = '\\' then ['\\', '\\']
  else if c = '\n' then ['\\', 'n']
  else if c = '\r' then ['\\', 'r']
  else if c = '\t' then ['\\', 't']
  else if c = '\x00' then ['\\', '0']
  else if isPrintable c then [c]
  else ['\\', 'u', '\x7b'] ++ Nat.toDigits 16 c.toNat ++ ['\x7d']

/-- A text in double quotes. -/
def quoted (text : String) : String :=
  String.ofList ('"' :: text.toList.flatMap escape ++ ['"'])

/-- Quoted items between square brackets. -/
def bracketed (items : List String) : String := "[" ++ ", ".intercalate items ++ "]"

end BytecodeIR.Text
