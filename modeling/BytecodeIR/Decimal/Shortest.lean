import BytecodeIR.Decimal.Rounding
/-!
The fewest decimal digits that still denote a given floating-point number.

Every number between the midpoints to its two neighbours reads back as that number.  For one digit,
two digits and so on, the number lies between two neighbouring points of the decimal grid with that
many digits; as soon as one of the two reads back it is taken, and of two that do the nearer.  Only
an exact tie leaves a choice, which is the caller's.
-/

namespace BytecodeIR

/-- Which of two equally near decimals is taken. -/
inductive Tie where
  /-- The one whose last digit is even. -/
  | toEven
  /-- The larger one. -/
  | up
deriving DecidableEq

/-- The decimal `digits · 10 ^ exponent`. -/
structure Decimal where
  /-- The digits, read as one integer. -/
  digits : Nat
  /-- The power of ten that they are multiples of. -/
  exponent : Int
deriving DecidableEq

/-- How many decimal digits an integer has; zero has none. -/
def digitCount (n : Nat) : Nat := if n = 0 then 0 else (Nat.toDigits 10 n).length

/-- The exponent `e` with `10 ^ e ≤ num / den < 10 ^ (e + 1)`, for positive `num` and `den`. -/
def floorLog10 (num den : Nat) : Int :=
  if den ≤ num then (digitCount (num / den) : Int) - 1
  else -(digitCount ((den - 1) / num) : Int)

/-- The numbers that read back as one floating-point number: all between two midpoints, over one
denominator. -/
structure ReadBack where
  /-- The numerator of the number itself. -/
  value : Nat
  /-- The numerator of the lower midpoint. -/
  low : Nat
  /-- The numerator of the upper midpoint. -/
  high : Nat
  /-- The common denominator. -/
  den : Nat
  /-- Whether the midpoints themselves read back. -/
  inclusive : Bool

namespace ReadBack

/-- The interval of a finite word above zero.  Below a power of two the neighbours are half as far
apart as above it, and a midpoint reads back as the neighbour with the even significand. -/
def ofWord (f : BinaryFormat) (word : Nat) : ReadBack :=
  let (m, q) := f.decompose word
  let lowGap := if m = f.wordsPerExponent ∧ f.minExponent < q then 1 else 2
  let (unit, den) := dyadic 1 (q - 2)
  { value := 4 * m * unit
    low := (4 * m - lowGap) * unit
    high := (4 * m + 2) * unit
    den := den
    inclusive := m % 2 = 0 }

/-- Whether `num / den` reads back, for the numerator of a fraction over the common denominator
times `scale`. -/
def admits (r : ReadBack) (num scale : Nat) : Bool :=
  if r.inclusive then r.low * scale ≤ num && num ≤ r.high * scale
  else r.low * scale < num && num < r.high * scale

/-- The multiple of `10 ^ exponent` next to the value that reads back, the nearer one if both
neighbours do. -/
def onGrid (r : ReadBack) (tie : Tie) (exponent : Int) : Option Nat :=
  let step := r.den * Nat.pow 10 exponent.toNat
  let scale := Nat.pow 10 (-exponent).toNat
  let value := r.value * scale
  let below := value / step
  let above := below + 1
  match r.admits (below * step) scale, r.admits (above * step) scale with
  | true, true =>
    match compare (2 * value) ((below + above) * step) with
    | .lt => some below
    | .gt => some above
    | .eq =>
      match tie with
      | .up => some above
      | .toEven => some (below + below % 2)
  | true, false => some below
  | false, true => some above
  | false, false => none

end ReadBack

namespace Decimal

/-- The decimal without the zeros at its end, of which at most `fuel` are dropped. -/
def trim : Nat → Decimal → Decimal
  | 0, d => d
  | fuel + 1, d =>
    if d.digits ≠ 0 ∧ d.digits % 10 = 0 then trim fuel ⟨d.digits / 10, d.exponent + 1⟩ else d

/-- The shortest decimal that reads back as a finite word above zero.  Seventeen digits are enough
for either format. -/
def shortest (f : BinaryFormat) (tie : Tie) (word : Nat) : Decimal :=
  let r := ReadBack.ofWord f word
  let top := floorLog10 r.value r.den
  let found := (List.range 17).findSome? fun (i : Nat) =>
    let exponent := top - (i : Int)
    (r.onGrid tie exponent).map (Decimal.mk · exponent)
  (found.getD ⟨0, 0⟩).trim 17

end Decimal

end BytecodeIR
