import ExportSurface.Text.Numeral
/-!
# Text — the range of doubles

Which decimal numbers are too great for a double. Taken exactly, these are the
numbers from `doubleLimit` on (`beyondDouble`). A number may also be computed
step by step, from a significand that is cut to a word and a power of ten, and
then every step rounds (`Scaled.isBeyond`). The two ways differ near the limit
only.
-/

namespace ExportSurface

namespace Text

/-- The numbers from here on round to infinity: half a unit in the last place
above the largest double. -/
def doubleLimit : Nat := Nat.pow 2 1024 - Nat.pow 2 970

/-- Whether `digits · 10 ^ exponent` rounds to infinity. Numbers whose count
of digits settles the question are not computed. -/
def beyondDouble (digits : List Char) (exponent : Int) : Bool :=
  let significant := digits.dropWhile (· = '0')
  let size := significant.length + exponent
  if significant = [] then false
  else if size > 309 then true
  else if size < 309 then false
  else if exponent ≥ 0 then decimal significant * Nat.pow 10 exponent.toNat ≥ doubleLimit
  else decimal significant ≥ doubleLimit * Nat.pow 10 (-exponent).toNat

/-- The nearest number with at most 53 significant bits, of two the one whose
last bit is zero. Below the limit this is the nearest double. -/
def roundDouble (n : Nat) : Nat :=
  let unit := Nat.pow 2 (n.log2 + 1 - 53)
  let quotient := n / unit
  let twice := 2 * (n % unit)
  if twice > unit || (twice = unit && quotient % 2 = 1) then (quotient + 1) * unit
  else quotient * unit

/-- The digits taken into a significand of 64 bits from the left, as long as
it holds them, and the digits left over. -/
def absorb (significand : Nat) : List Char → Nat × List Char
  | [] => (significand, [])
  | d :: ds =>
    let next := significand * 10 + decimal [d]
    if next < Nat.pow 2 64 then absorb next ds else (significand, d :: ds)

/-- A decimal number as it is held while its double is computed. -/
structure Scaled where
  significand : Nat
  /-- The power of ten that the significand is scaled by. -/
  exponent : Int
deriving DecidableEq, Repr, Inhabited

namespace Scaled

/-- The number of a numeral. A digit before the point that no longer fits
only scales the number, one after the point is dropped with all that follow. -/
def ofNumeral (whole fraction : List Char) (exponent : Int) : Scaled :=
  let (n, scaling) := absorb 0 whole
  let (n, dropped) := absorb n fraction
  ⟨n, exponent + scaling.length - (fraction.length - dropped.length : Nat)⟩

/-- Whether the number comes out as infinite. The power of ten and the
significand are rounded on their own and their product once more. -/
def isBeyond (x : Scaled) : Bool :=
  if x.significand = 0 || x.exponent < 0 then false
  else if x.exponent > 308 then true
  else
    roundDouble x.significand * roundDouble (Nat.pow 10 x.exponent.toNat) ≥ doubleLimit

end Scaled

end Text

end ExportSurface
