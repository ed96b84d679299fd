import BytecodeIR.Decimal.Shortest
/-!
How a decimal is written: positionally while its exponent is moderate, with an exponent otherwise.

Two layouts are in use.  They differ in the exponents that they write positionally, in the sign of
a positive exponent and in which way an exact tie between two shortest decimals goes.
-/

namespace BytecodeIR

/-- The choices that a way of writing numbers makes. -/
structure Layout where
  /-- The least exponent written positionally, counted at the first digit. -/
  minPlain : Int
  /-- The greatest exponent written positionally. -/
  maxPlain : Int
  /-- What stands before a positive exponent. -/
  plus : String
  /-- Which of two equally short and near decimals is written. -/
  tie : Tie

namespace Layout

/-- Numbers of a JSON text: `0.00001`, `1000000000000000.0`, `1e+16`, `1e-6`. -/
def json : Layout := ⟨-5, 15, "+", .toEven⟩

/-- Numbers of a listing: `0.0001`, `1000000000000000.0`, `1e16`, `1e-5`. -/
def listing : Layout := ⟨-4, 15, "", .up⟩

/-- Writes `0.d…` when the point stands at or before the first digit, otherwise puts the point after
`point` digits; an integer ends in `.0`. -/
def positional (digits : List Char) (point : Int) : List Char :=
  if point ≤ 0 then '0' :: '.' :: (List.replicate (-point).toNat '0' ++ digits)
  else if digits.length ≤ point.toNat then
    digits ++ List.replicate (point.toNat - digits.length) '0' ++ ['.', '0']
  else digits.take point.toNat ++ '.' :: digits.drop point.toNat

/-- Writes one digit before the point, the others after it, and the exponent. -/
def scientific (l : Layout) (digits : List Char) (exponent : Int) : List Char :=
  let mantissa := match digits with
    | [] => []
    | [d] => [d]
    | d :: rest => d :: '.' :: rest
  let sign := if exponent < 0 then ['-'] else l.plus.toList
  mantissa ++ 'e' :: (sign ++ Nat.toDigits 10 exponent.natAbs)

/-- Writes a decimal above zero. -/
def magnitude (l : Layout) (d : Decimal) : List Char :=
  let digits := Nat.toDigits 10 d.digits
  let exponent := d.exponent + digits.length - 1
  if l.minPlain ≤ exponent ∧ exponent ≤ l.maxPlain then positional digits (exponent + 1)
  else l.scientific digits exponent

/-- Writes a sign and a magnitude word of a format. -/
def word (l : Layout) (f : BinaryFormat) (negative : Bool) (w : Nat) : List Char :=
  if f.infinity < w then "NaN".toList
  else
    let magnitude :=
      if w = f.infinity then "inf".toList
      else if w = 0 then "0.0".toList
      else l.magnitude (Decimal.shortest f l.tie w)
    if negative then '-' :: magnitude else magnitude

end Layout

namespace Double

/-- The number in double precision. -/
def text (l : Layout) (x : Double) : String :=
  String.ofList (l.word binary64 x.isNegative x.word)

/-- The number rounded to single precision first. -/
def singleText (l : Layout) (x : Double) : String :=
  if x.isNaN then "NaN" else String.ofList (l.word binary32 x.isNegative x.singleWord)

end Double

end BytecodeIR
