/-!
# Decimal digits and doubles

The formats give numbers in decimal digits and hold them in double precision, so a number
may be too large. The bounds here are computed with whole numbers of any size.
-/

namespace Bindery.Decimal

def value (digits : List Char) : Nat :=
  digits.foldl (fun n c => 10 * n + (c.toNat - '0'.toNat)) 0

def padded (width n : Nat) : List Char := (toString n).toList.leftpad width '0'

/-- The least number that no double is near enough to: half way from the largest double to
the next power of two. -/
def tooLarge : Nat := Nat.pow 2 1024 - Nat.pow 2 970

/-- Whether `digits * 10 ^ exponent` is below `tooLarge`. The powers are computed only if the
number of places leaves the matter open. -/
def isFinite (digits : List Char) (exponent : Int) : Bool :=
  let significant := digits.dropWhile (· = '0')
  let places := (significant.length : Int) + exponent
  if significant.isEmpty || places ≤ 308 then true
  else if places > 309 then false
  else value significant * Nat.pow 10 exponent.toNat < tooLarge * Nat.pow 10 (-exponent).toNat

/-- The number of at most 53 binary digits, zeros behind them apart, that is nearest to a
whole number. Of two that are equally near it is the one whose last digit is even. -/
def nearestDouble (n : Nat) : Nat :=
  let unit := Nat.pow 2 (n.log2 + 1 - 53)
  let low := n / unit
  let behind := n % unit
  if 2 * behind < unit || (2 * behind = unit && low % 2 = 0) then low * unit
  else (low + 1) * unit

def isFiniteProduct (significand : Nat) (exponent : Int) : Bool :=
  significand = 0 || exponent < 0 ||
    (exponent ≤ 308 &&
      nearestDouble significand * nearestDouble (Nat.pow 10 exponent.toNat) < tooLarge)

end Bindery.Decimal
