import BytecodeIR.Json.Document
/-!
The texts of a TOML document: strings, keys and comments.

A string stands between double quotes and has escapes, or between single quotes and has none; either
kind may stand between three quotes and run over several lines.  Every reader answers with what it
has read and what follows it.
-/

namespace BytecodeIR.Toml

/-- Whether a character may stand between the tokens of a line. -/
def isBlank (c : Char) : Bool := c = ' ' || c = '\t'

/-- A text without the blanks at its start. -/
def skipBlanks (cs : List Char) : List Char := cs.dropWhile isBlank

/-- Whether a character may stand in a string or comment. -/
def isPlain (c : Char) : Bool := c = '\t' || (0x20 ≤ c.toNat && c.toNat ≠ 0x7f)

/-- What follows the line end at the start of a text. -/
def afterNewline? : List Char → Option (List Char)
  | '\n' :: rest => some rest
  | '\x0d' :: '\n' :: rest => some rest
  | _ => none

/-- What follows the comment at the start of a text, up to the end of its line. -/
def skipComment (cs : List Char) : List Char :=
  match cs with
  | '#' :: rest => rest.dropWhile isPlain
  | cs => cs

/-- What follows the rest of a line: blanks, a comment, and the end of the line or text. -/
def afterLine? (cs : List Char) : Option (List Char) :=
  match skipComment (skipBlanks cs) with
  | [] => some []
  | rest => afterNewline? rest

/-! ### Escapes -/

/-- The number that hexadecimal digits denote. -/
def hexNumber? (digits : List Char) : Option Nat :=
  digits.foldlM (fun n c => (Json.hexValue? c).map fun d => 16 * n + d) 0

/-- The character with a number, if there is one. -/
def character? (n : Nat) : Option Char := if n.isValidChar then some (Char.ofNat n) else none

/-- The character that an escape denotes, read after the backslash. -/
def escape? : List Char → Option (Char × List Char)
  | 'b' :: rest => some ('\x08', rest)
  | 't' :: rest => some ('\t', rest)
  | 'n' :: rest => some ('\n', rest)
  | 'f' :: rest => some ('\x0c', rest)
  | 'r' :: rest => some ('\x0d', rest)
  | '"' :: rest => some ('"', rest)
  | '\\' :: rest => some ('\\', rest)
  | 'u' :: rest => do
    if rest.length < 4 then none
    let c ← character? (← hexNumber? (rest.take 4))
    pure (c, rest.drop 4)
  | 'U' :: rest => do
    if rest.length < 8 then none
    let c ← character? (← hexNumber? (rest.take 8))
    pure (c, rest.drop 8)
  | _ => none

/-! ### Strings of one line -/

/-- Reads a string with escapes after its opening quote. -/
def basic? (done : List Char) : Nat → List Char → Option (String × List Char)
  | 0, _ => none
  | fuel + 1, cs =>
    match cs with
    | '"' :: rest => some (String.ofList done.reverse, rest)
    | '\\' :: rest => do
      let (c, rest) ← escape? rest
      basic? (c :: done) fuel rest
    | c :: rest => if isPlain c then basic? (c :: done) fuel rest else none
    | [] => none

/-- Reads a string without escapes after its opening quote. -/
def literal? (cs : List Char) : Option (String × List Char) :=
  match cs.dropWhile fun c => isPlain c && c ≠ '\'' with
  | '\'' :: rest => some (String.ofList (cs.takeWhile fun c => isPlain c && c ≠ '\''), rest)
  | _ => none

/-! ### Strings of several lines -/

/-- The quotes at the start of a text: those that belong to the string, and what follows the
string if they end it.  Two more quotes than the three that end a string belong to it. -/
def quotes (quote : Char) (cs : List Char) : List Char × Option (List Char) × List Char :=
  let count := (cs.takeWhile (· = quote)).length
  if count < 3 then (List.replicate count quote, none, cs.drop count)
  else
    let inner := min count 5 - 3
    (List.replicate inner quote, some (cs.drop (inner + 3)), [])

/-- A text without the blanks and line ends at its start. -/
def skipLines : List Char → List Char
  | '\n' :: rest => skipLines rest
  | '\x0d' :: '\n' :: rest => skipLines rest
  | c :: rest => if isBlank c then skipLines rest else c :: rest
  | [] => []

/-- What follows a backslash at the end of a line: the text after all blanks and line ends. -/
def afterContinuation? (cs : List Char) : Option (List Char) :=
  (afterNewline? (skipBlanks cs)).map skipLines

/-- Reads a string of several lines after its opening quotes and the line end that follows them. -/
def multiline? (quote : Char) (done : List Char) : Nat → List Char → Option (String × List Char)
  | 0, _ => none
  | fuel + 1, cs =>
    match cs with
    | [] => none
    | c :: rest =>
      if c = quote then
        match quotes quote cs with
        | (inner, some after, _) => some (String.ofList (done.reverse ++ inner), after)
        | (inner, none, rest) => multiline? quote (inner ++ done) fuel rest
      else if c = '\\' ∧ quote = '"' then
        match afterContinuation? rest with
        | some rest => multiline? quote done fuel rest
        | none => do
          let (e, rest) ← escape? rest
          multiline? quote (e :: done) fuel rest
      else
        match afterNewline? cs with
        | some rest => multiline? quote ('\n' :: done) fuel rest
        | none => if isPlain c then multiline? quote (c :: done) fuel rest else none

/-- Reads a string of several lines after its opening quotes. -/
def multilineBody? (quote : Char) (cs : List Char) : Option (String × List Char) :=
  multiline? quote [] (cs.length + 1) ((afterNewline? cs).getD cs)

/-- Reads a string of any kind. -/
def string? : List Char → Option (String × List Char)
  | '"' :: '"' :: '"' :: rest => multilineBody? '"' rest
  | '"' :: rest => basic? [] (rest.length + 1) rest
  | '\'' :: '\'' :: '\'' :: rest => multilineBody? '\'' rest
  | '\'' :: rest => literal? rest
  | _ => none

/-! ### Keys -/

/-- Whether a character may stand in a key without quotes. -/
def isKeyChar (c : Char) : Bool := c.isAlphanum || c = '-' || c = '_'

/-- Reads one part of a key. -/
def keyPart? (cs : List Char) : Option (String × List Char) :=
  match cs with
  | '"' :: rest => basic? [] (rest.length + 1) rest
  | '\'' :: rest => literal? rest
  | cs =>
    if (cs.takeWhile isKeyChar).isEmpty then none
    else some (String.ofList (cs.takeWhile isKeyChar), cs.dropWhile isKeyChar)

/-- Reads a key of one or more parts with dots between them, and the blanks around it. -/
def key? : Nat → List Char → Option (List String × List Char)
  | 0, _ => none
  | fuel + 1, cs => do
    let (part, rest) ← keyPart? (skipBlanks cs)
    match skipBlanks rest with
    | '.' :: rest => do
      let (parts, rest) ← key? fuel rest
      pure (part :: parts, rest)
    | rest => pure ([part], rest)

end BytecodeIR.Toml
