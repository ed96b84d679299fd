/-!
Binary floating-point numbers as exact arithmetic.

A `BinaryFormat` says which magnitudes a word of a floating-point type denotes.  A magnitude is a
pair `(m, q)` standing for `m · 2 ^ q`; nothing here is approximate, so every operation on floating
point reduces to `nearest`: the word whose magnitude is closest to a given fraction, a tie going to
the even significand.
-/

namespace BytecodeIR

/-- What the words of a binary floating-point type denote, the sign left out. -/
structure BinaryFormat where
  /-- The bits of a significand, the hidden one included. -/
  precision : Nat
  /-- The exponent of the least magnitude above zero. -/
  minExponent : Int
  /-- The word that stands for infinity; the words below it are the finite magnitudes in order. -/
  infinity : Nat

/-- Double precision: 64-bit words. -/
def binary64 : BinaryFormat := ⟨53, -1074, 0x7ff0000000000000⟩

/-- Single precision: 32-bit words. -/
def binary32 : BinaryFormat := ⟨24, -149, 0x7f800000⟩

/-- The integer closest to `num / den`, a tie going to the even one. -/
def roundHalfEven (num den : Nat) : Nat :=
  let quotient := num / den
  let rest := num % den
  if 2 * rest < den then quotient
  else if den < 2 * rest then quotient + 1
  else quotient + quotient % 2

/-- The exponent `e` with `2 ^ e ≤ num / den < 2 ^ (e + 1)`, for positive `num` and `den`. -/
def floorLog2 (num den : Nat) : Int :=
  let guess : Int := (num.log2 : Int) - (den.log2 : Int)
  if den * Nat.pow 2 guess.toNat ≤ num * Nat.pow 2 (-guess).toNat then guess else guess - 1

namespace BinaryFormat

/-- How many words share one exponent. -/
def wordsPerExponent (f : BinaryFormat) : Nat := Nat.pow 2 (f.precision - 1)

/-- The word of the magnitude closest to `num / den`, for positive `den`; what is too large for a
finite magnitude becomes infinity. -/
def nearest (f : BinaryFormat) (num den : Nat) : Nat :=
  if num = 0 then 0
  else
    let exponent := max (floorLog2 num den - (f.precision - 1 : Nat)) f.minExponent
    let significand :=
      roundHalfEven (num * Nat.pow 2 (-exponent).toNat) (den * Nat.pow 2 exponent.toNat)
    min ((exponent - f.minExponent).toNat * f.wordsPerExponent + significand) f.infinity

/-- The significand and exponent of a finite word: it denotes `m · 2 ^ q`. -/
def decompose (f : BinaryFormat) (word : Nat) : Nat × Int :=
  let field := word / f.wordsPerExponent
  let fraction := word % f.wordsPerExponent
  if field = 0 then (fraction, f.minExponent)
  else (fraction + f.wordsPerExponent, f.minExponent + (field - 1 : Nat))

end BinaryFormat

/-- The fraction that `m · 2 ^ q` is, as numerator and denominator. -/
def dyadic (m : Nat) (q : Int) : Nat × Nat := (m * Nat.pow 2 q.toNat, Nat.pow 2 (-q).toNat)

/-- A double-precision number, known by its bits: the sign of a zero and the payload of a NaN are
part of it. -/
structure Double where
  /-- Sign, exponent and fraction as one word. -/
  bits : UInt64
deriving DecidableEq, Inhabited

namespace Double

/-- The bit of a word that tells negative numbers. -/
def signBit : Nat := 0x8000000000000000

/-- The number of a sign and a magnitude word. -/
def ofWord (negative : Bool) (word : Nat) : Double :=
  ⟨UInt64.ofNat (word + if negative then signBit else 0)⟩

/-- Whether the sign bit is set. -/
def isNegative (x : Double) : Bool := signBit ≤ x.bits.toNat

/-- The bits without the sign. -/
def word (x : Double) : Nat := x.bits.toNat % signBit

/-- Whether the number is neither infinite nor a NaN. -/
def isFinite (x : Double) : Bool := x.word < binary64.infinity

/-- Whether the bits stand for no number. -/
def isNaN (x : Double) : Bool := binary64.infinity < x.word

/-- Positive or negative infinity. -/
def infinite (negative : Bool) : Double := ofWord negative binary64.infinity

/-- The quiet NaN with an empty payload. -/
def nan (negative : Bool) : Double := ofWord negative 0x7ff8000000000000

/-- The double closest to `num / den`, a tie going to the even significand. -/
def nearest (negative : Bool) (num den : Nat) : Double :=
  ofWord negative (binary64.nearest num den)

/-- The double closest to an integer. -/
def ofInt (i : Int) : Double := nearest (i < 0) i.natAbs 1

/-- The magnitude as a fraction, for a finite number. -/
def fraction (x : Double) : Nat × Nat :=
  let (m, q) := binary64.decompose x.word
  dyadic m q

/-- The magnitude of the product, rounded; the sign is that of the first factor. -/
def scaleUp (x y : Double) : Double :=
  let (a, b) := x.fraction
  let (c, d) := y.fraction
  nearest x.isNegative (a * c) (b * d)

/-- The magnitude of the quotient, rounded; the sign is that of the dividend. -/
def scaleDown (x y : Double) : Double :=
  let (a, b) := x.fraction
  let (c, d) := y.fraction
  nearest x.isNegative (a * d) (b * c)

/-- The single-precision word closest to a magnitude that is not a NaN. -/
def singleWord (x : Double) : Nat :=
  if x.isFinite then
    let (num, den) := x.fraction
    binary32.nearest num den
  else binary32.infinity

end Double

end BytecodeIR
