import SumScript.Double.Rounding

/-!
# Addition and subtraction of doubles

A sum of finite doubles is the exact sum of their quanta, rounded once.  A sum
of zero has no rounding and only its sign to settle: it is negative when both
operands are.  Infinities absorb finite numbers, and infinities of opposite
sign have no sum.
-/

namespace SumScript

/-- The double nearest to a whole number of quanta.  `negativeZero` is the sign
of the result if the number is zero. -/
def Double.ofQuanta (negativeZero : Bool) (quanta : Int) : Double :=
  if quanta = 0 then .finite negativeZero .zero
  else .nearest (decide (quanta < 0)) quanta.natAbs 1

/-- The sum of two doubles, rounded to nearest. -/
def Double.add : Double → Double → Double
  | .nan, _ => .nan
  | _, .nan => .nan
  | .infinite a, .infinite b => if a = b then .infinite a else .nan
  | .infinite a, .finite _ _ => .infinite a
  | .finite _ _, .infinite b => .infinite b
  | .finite a m, .finite b n => .ofQuanta (a && b) (signed a m + signed b n)

/-- The difference of two doubles, rounded to nearest. -/
def Double.sub (x y : Double) : Double := x.add y.neg

end SumScript
