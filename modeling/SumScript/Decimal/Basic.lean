/-!
# Decimals

A decimal is a natural coefficient times a power of ten.  It has one positional
writing, with as many zeros as the power asks for, and one scientific writing,
with a single digit before the point.  `Decimal.magnitude` says where the first
digit stands, so that a style of writing can choose between the two.
-/

namespace SumScript

/-- The number `coefficient * 10 ^ exponent`. -/
structure Decimal where
  /-- The digits, read as a natural number. -/
  coefficient : Nat
  /-- The power of ten that the last digit stands for. -/
  exponent : Int
deriving DecidableEq

/-- The digits of the coefficient. -/
def Decimal.digits (d : Decimal) : List Char := Nat.toDigits 10 d.coefficient

/-- The least `p` with the decimal below `10 ^ p`, for a positive decimal. -/
def Decimal.magnitude (d : Decimal) : Int := d.exponent + d.digits.length

/-- Whether the last digit stands for a whole number. -/
def Decimal.isWhole (d : Decimal) : Bool := decide (0 ≤ d.exponent)

/-- Digits with the last `places` of them after a point.  Zeros fill up on the
left, so that one digit stands before the point. -/
def Decimal.pointed (digits : List Char) (places : Nat) : List Char :=
  let padded := List.replicate (places + 1 - digits.length) '0' ++ digits
  padded.take (padded.length - places) ++ '.' :: padded.drop (padded.length - places)

/-- The positional writing: every digit in its place, no power of ten. -/
def Decimal.positional (d : Decimal) : List Char :=
  if d.isWhole then d.digits ++ List.replicate d.exponent.toNat '0'
  else pointed d.digits (-d.exponent).toNat

/-- The scientific writing: one digit, the others after a point, and the power
of ten of the first digit after an `e`. -/
def Decimal.scientific (d : Decimal) : List Char :=
  let digits := d.digits
  let fraction := digits.drop 1
  digits.take 1 ++ (if fraction.isEmpty then [] else '.' :: fraction) ++
    'e' :: (toString (d.magnitude - 1)).toList

end SumScript
