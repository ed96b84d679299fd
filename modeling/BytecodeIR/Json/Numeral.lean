import BytecodeIR.Json.Value
/-!
Reading the numbers of a JSON text.

A number without point and exponent is an integer if 64 bits hold it.  Every other number is a
double, computed from the leading digits that 64 bits hold and one scaling by a power of ten; this
is exact for short numbers and may be off in the last bit for long ones.  A number too large for a
double is correct JSON without a value.
-/

namespace BytecodeIR.Json

/-- A number taken apart as it is written. -/
structure Numeral where
  /-- Whether a minus sign stands in front. -/
  negative : Bool
  /-- The digits before the point. -/
  whole : List Char
  /-- The digits after the point, none if there is no point. -/
  fraction : List Char
  /-- The sign and the digits of the exponent, if one is written. -/
  exponent : Option (Bool × List Char)
deriving DecidableEq

namespace Numeral

/-- The value of a decimal digit. -/
def digit (c : Char) : Nat := c.toNat - '0'.toNat

/-- The digits at the start of a text, at least one, and what follows them. -/
def digits? (cs : List Char) : Option (List Char × List Char) :=
  match cs.span Char.isDigit with
  | ([], _) => none
  | (ds, rest) => some (ds, rest)

/-- The whole part: a single zero, or digits that do not begin with zero. -/
def whole? (cs : List Char) : Option (List Char × List Char) :=
  match digits? cs with
  | some ('0' :: _ :: _, _) => none
  | found => found

/-- The fraction, if a point follows. -/
def fraction? : List Char → Option (List Char × List Char)
  | '.' :: rest => digits? rest
  | rest => some ([], rest)

/-- The exponent, if its mark follows. -/
def exponent? : List Char → Option (Option (Bool × List Char) × List Char)
  | c :: rest =>
    if c = 'e' ∨ c = 'E' then
      let (negative, body) := match rest with
        | '-' :: more => (true, more)
        | '+' :: more => (false, more)
        | more => (false, more)
      (digits? body).map fun (ds, after) => (some (negative, ds), after)
    else some (none, c :: rest)
  | [] => some (none, [])

/-- The number at the start of a text, and what follows it. -/
def ofChars? (cs : List Char) : Option (Numeral × List Char) := do
  let (negative, body) := match cs with
    | '-' :: rest => (true, rest)
    | rest => (false, rest)
  let (whole, rest) ← whole? body
  let (fraction, rest) ← fraction? rest
  let (exponent, rest) ← exponent? rest
  pure ({ negative, whole, fraction, exponent }, rest)

/-- Appends digits to an integer as long as 64 bits hold the result; the digits left over are
returned. -/
def accumulate : Nat → List Char → Nat × List Char
  | n, [] => (n, [])
  | n, c :: rest =>
    if 10 * n + digit c < UInt64.size then accumulate (10 * n + digit c) rest else (n, c :: rest)

/-- The double closest to a power of ten, as a factor. -/
def powerOfTen (n : Nat) : Double := .nearest false (Nat.pow 10 n) 1

/-- Divides by `10 ^ n`, by `10 ^ 308` at a time; from the magnitudes of 64-bit integers two such
divisions reach zero. -/
def divide : Nat → Double → Nat → Double
  | 0, x, _ => x
  | fuel + 1, x, n =>
    if n ≤ 308 then x.scaleDown (powerOfTen n)
    else if x.word = 0 then x
    else divide fuel (x.scaleDown (powerOfTen 308)) (n - 308)

/-- The double `significand · 10 ^ exponent` as this format computes it; none if it is too large. -/
def scaled? (negative : Bool) (significand : Nat) (exponent : Int) : Option Double :=
  let x := Double.nearest negative significand 1
  if exponent < 0 then some (divide 3 x (-exponent).toNat)
  else if significand = 0 then some x
  else if 308 < exponent then none
  else
    let y := x.scaleUp (powerOfTen exponent.toNat)
    if y.isFinite then some y else none

/-- The value of a number, none if it is too large for a double. -/
def value? (n : Numeral) : Option Number :=
  let (head, spilled) := accumulate 0 n.whole
  if spilled.isEmpty ∧ n.fraction.isEmpty ∧ n.exponent.isNone then
    if ¬ n.negative then some (.integer head)
    else if 0 < head ∧ head ≤ 0x8000000000000000 then some (.integer (-head))
    else some (.real (.nearest true head 1))
  else
    let (significand, dropped) := accumulate head n.fraction
    let start : Int := spilled.length - (n.fraction.length - dropped.length : Nat)
    match n.exponent with
    | none => (scaled? n.negative significand start).map .real
    | some (down, ds) =>
      let written := ds.foldl (fun m c => 10 * m + digit c) 0
      if written < 0x80000000 then
        let exponent := if down then start - written else start + written
        (scaled? n.negative significand exponent).map .real
      else if significand ≠ 0 ∧ ¬ down then none
      else some (.real (.ofWord n.negative 0))

end Numeral

end BytecodeIR.Json
