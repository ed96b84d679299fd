import BytecodeIR.Decimal.Rounding
/-!
Texts that denote a double: an optional sign, then digits with an optional point and exponent, or
one of the names of infinity and NaN in any letter case.  The denoted decimal is rounded to the
closest double.
-/

namespace BytecodeIR

/-- An unsigned decimal literal taken apart: the digits before and after the point as one integer,
how many stood after it, and the exponent. -/
structure Literal where
  /-- All digits of the mantissa, read as one integer. -/
  digits : Nat
  /-- How many digits the mantissa has. -/
  count : Nat
  /-- How many of them stand after the point. -/
  places : Nat
  /-- The written exponent. -/
  exponent : Int

namespace Literal

/-- The integer that a list of digits denotes, continuing from `acc`. -/
def digitsValue (acc : Nat) (digits : List Char) : Nat :=
  digits.foldl (fun n c => 10 * n + (c.toNat - '0'.toNat)) acc

/-- Reads an exponent after its mark: an optional sign and at least one digit. -/
def exponent? (cs : List Char) : Option Int :=
  let (negative, digits) := match cs with
    | '-' :: rest => (true, rest)
    | '+' :: rest => (false, rest)
    | rest => (false, rest)
  if digits.isEmpty ∨ ¬ digits.all Char.isDigit then none
  else
    let n : Int := digitsValue 0 digits
    some (if negative then -n else n)

/-- Reads a whole text as an unsigned literal: digits on at least one side of an optional point. -/
def ofChars? (cs : List Char) : Option Literal :=
  let whole := cs.takeWhile Char.isDigit
  let afterWhole := cs.dropWhile Char.isDigit
  let (part, rest) := match afterWhole with
    | '.' :: more => (more.takeWhile Char.isDigit, more.dropWhile Char.isDigit)
    | more => ([], more)
  if whole.isEmpty ∧ part.isEmpty then none
  else
    let literal (e : Int) : Literal :=
      { digits := digitsValue (digitsValue 0 whole) part
        count := whole.length + part.length
        places := part.length
        exponent := e }
    match rest with
    | [] => some (literal 0)
    | c :: more => if c = 'e' ∨ c = 'E' then (exponent? more).map literal else none

/-- The closest double.  A decimal beyond `10 ^ 400` or below `10 ^ -400` needs no arithmetic. -/
def toDouble (l : Literal) (negative : Bool) : Double :=
  let power := l.exponent - l.places
  if l.digits = 0 ∨ power + l.count < -400 then .ofWord negative 0
  else if 400 < power then .infinite negative
  else .nearest negative (l.digits * Nat.pow 10 power.toNat) (Nat.pow 10 (-power).toNat)

end Literal

namespace Double

/-- Reads a whole text as a double. -/
def ofText? (text : String) : Option Double :=
  let (negative, body) := match text.toList with
    | '-' :: rest => (true, rest)
    | '+' :: rest => (false, rest)
    | rest => (false, rest)
  match Literal.ofChars? body with
  | some l => some (l.toDouble negative)
  | none =>
    match String.ofList (body.map Char.toLower) with
    | "inf" => some (.infinite negative)
    | "infinity" => some (.infinite negative)
    | "nan" => some (.nan negative)
    | _ => none

end Double

end BytecodeIR
