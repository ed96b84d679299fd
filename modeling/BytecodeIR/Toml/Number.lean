import BytecodeIR.Decimal.Literal
import BytecodeIR.Toml.Table
/-!
Numbers, truth values and dates of a TOML document.

All of these are words of letters, digits and a few signs, and which of them a word is shows in its
form.  An underscore may stand between two digits of a number, and an integer has 64 bits.
-/

namespace BytecodeIR.Toml

/-- Whether a character may stand in a word. -/
def isWordChar (c : Char) : Bool :=
  c.isAlphanum || c = '+' || c = '-' || c = '_' || c = '.' || c = ':'

/-- The digits of a number, underscores between two of them left out. -/
def digitsOf? (isDigit : Char → Bool) : List Char → Option (List Char)
  | [] => none
  | [c] => if isDigit c then some [c] else none
  | c :: '_' :: rest => if isDigit c then (digitsOf? isDigit rest).map (c :: ·) else none
  | c :: rest => if isDigit c then (digitsOf? isDigit rest).map (c :: ·) else none

/-- The digits of a decimal number that does not begin with a zero unless it is one. -/
def wholeDigits? (cs : List Char) : Option (List Char) :=
  match digitsOf? Char.isDigit cs with
  | some ('0' :: _ :: _) => none
  | digits => digits

/-- A word without the sign at its start. -/
def unsigned : List Char → Bool × List Char
  | '-' :: rest => (true, rest)
  | '+' :: rest => (false, rest)
  | rest => (false, rest)

/-- The value of a digit in any base up to sixteen. -/
def digitValue (c : Char) : Nat :=
  if c.isDigit then c.toNat - '0'.toNat else c.toLower.toNat - 'a'.toNat + 10

/-- The number that digits denote in a base, if every one of them is a digit of that base. -/
def numberIn? (base : Nat) (cs : List Char) : Option Nat :=
  let isDigit (c : Char) : Bool := c.isAlphanum && digitValue c < base
  (digitsOf? isDigit cs).map fun digits => digits.foldl (fun n c => base * n + digitValue c) 0

/-- The integer that a word denotes, whatever its size. -/
def unboundedInteger? : List Char → Option Int
  | '0' :: 'x' :: rest => (numberIn? 16 rest).map Int.ofNat
  | '0' :: 'o' :: rest => (numberIn? 8 rest).map Int.ofNat
  | '0' :: 'b' :: rest => (numberIn? 2 rest).map Int.ofNat
  | word => do
    let (negative, body) := unsigned word
    let digits ← wholeDigits? body
    let n : Int := digits.foldl (fun n c => 10 * n + digitValue c) 0
    pure (if negative then -n else n)

/-- The integer of 64 bits that a word denotes. -/
def integer? (word : List Char) : Option Int := do
  let i ← unboundedInteger? word
  if Int64.minValue.toInt ≤ i ∧ i ≤ Int64.maxValue.toInt then some i else none

/-- The decimal literal that a word with a point or exponent is, underscores left out. -/
def decimal? (word : List Char) : Option (List Char) := do
  let (negative, body) := unsigned word
  let isMark (c : Char) : Bool := c = 'e' || c = 'E'
  let mantissa := body.takeWhile fun c => !isMark c
  let whole ← wholeDigits? (mantissa.takeWhile (· ≠ '.'))
  let part ← match mantissa.dropWhile (· ≠ '.') with
    | _ :: part => (digitsOf? Char.isDigit part).map ('.' :: ·)
    | [] => some []
  let power ← match body.dropWhile fun c => !isMark c with
    | _ :: power =>
      let (down, digits) := unsigned power
      (digitsOf? Char.isDigit digits).map fun ds => 'e' :: (if down then '-' :: ds else ds)
    | [] => some []
  if part.isEmpty ∧ power.isEmpty then none
  else some ((if negative then ['-'] else []) ++ whole ++ part ++ power)

/-- Whether a word is a number with a point or exponent that is not too large, or one of the names
of infinity and NaN. -/
def isReal (word : List Char) : Bool :=
  match String.ofList (unsigned word).2 with
  | "inf" => true
  | "nan" => true
  | _ =>
    match decimal? word with
    | none => false
    | some cs => Double.ofText? (String.ofList cs) != some (.infinite false)

/-! ### Dates and times -/

/-- The number that exactly so many digits denote. -/
def fixed? (width low high : Nat) (cs : List Char) : Option Nat := do
  if cs.length ≠ width ∨ ¬ cs.all Char.isDigit then none
  let n := cs.foldl (fun n c => 10 * n + digitValue c) 0
  if low ≤ n ∧ n ≤ high then some n else none

/-- How many days a month has. -/
def daysIn (year month : Nat) : Nat :=
  if month = 2 then
    if year % 4 = 0 ∧ (year % 100 ≠ 0 ∨ year % 400 = 0) then 29 else 28
  else if month = 4 ∨ month = 6 ∨ month = 9 ∨ month = 11 then 30
  else 31

/-- Whether a word is a date. -/
def isDate (word : List Char) : Bool :=
  match word with
  | [y₁, y₂, y₃, y₄, '-', m₁, m₂, '-', d₁, d₂] =>
    (do
      let year ← fixed? 4 0 9999 [y₁, y₂, y₃, y₄]
      let month ← fixed? 2 1 12 [m₁, m₂]
      fixed? 2 1 (daysIn year month) [d₁, d₂]).isSome
  | _ => false

/-- Whether a word is a time of day. -/
def isTime (word : List Char) : Bool :=
  match word with
  | h₁ :: h₂ :: ':' :: m₁ :: m₂ :: ':' :: s₁ :: s₂ :: rest =>
    (fixed? 2 0 23 [h₁, h₂]).isSome && (fixed? 2 0 59 [m₁, m₂]).isSome &&
      (fixed? 2 0 60 [s₁, s₂]).isSome &&
      (match rest with
        | [] => true
        | '.' :: part => !part.isEmpty && part.all Char.isDigit
        | _ => false)
  | _ => false

/-- Whether a word is the distance of a time zone. -/
def isOffset (word : List Char) : Bool :=
  match word with
  | ['Z'] => true
  | ['z'] => true
  | [sign, h₁, h₂, ':', m₁, m₂] =>
    (sign = '+' || sign = '-') && (fixed? 2 0 23 [h₁, h₂]).isSome &&
      (fixed? 2 0 59 [m₁, m₂]).isSome
  | _ => false

/-- Whether a word is a time of day with or without a time zone. -/
def isZonedTime (word : List Char) : Bool :=
  let isClock (c : Char) : Bool := c.isDigit || c = ':' || c = '.'
  isTime word || (isTime (word.takeWhile isClock) && isOffset (word.dropWhile isClock))

/-- Whether a word is a date, a time, or a date and a time. -/
def isMoment (word : List Char) : Bool :=
  isDate word || isTime word ||
    (isDate (word.take 10) &&
      (match word.drop 10 with
        | mark :: time => (mark = 'T' || mark = 't' || mark = ' ') && isZonedTime time
        | [] => false))

/-! ### Words -/

/-- The value that a word stands for. -/
def word? (word : List Char) : Option Item :=
  match String.ofList word with
  | "true" => some (.boolean true)
  | "false" => some (.boolean false)
  | spelling =>
    match integer? word with
    | some i => some (.integer i)
    | none => if isReal word || isMoment word then some (.other spelling) else none

/-- Reads a word; a date may be followed by a space and a time. -/
def scalar? (cs : List Char) : Option (Item × List Char) :=
  let word := cs.takeWhile isWordChar
  let rest := cs.dropWhile isWordChar
  let more := match rest with
    | ' ' :: after => after.takeWhile isWordChar
    | _ => []
  if isDate word && isMoment (word ++ ' ' :: more) then
    some (.other (String.ofList (word ++ ' ' :: more)), rest.drop (more.length + 1))
  else (word? word).map fun item => (item, rest)

end BytecodeIR.Toml
