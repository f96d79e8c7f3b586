import SumScript.Decimal.Style
import SumScript.Double.Arithmetic

/-!
# Number systems

The language asks little of its numbers: digit runs name some of them, they can
be added and subtracted, and they can be printed.  Programs run over the
doubles.  Over the integers the same programs compute exactly, which is what a
run over the doubles is compared with.
-/

namespace SumScript

/-- What the language needs of its numbers. -/
class NumberSystem (ν : Type) where
  /-- The number that a literal denotes. -/
  ofNat : Nat → ν
  /-- Addition. -/
  add : ν → ν → ν
  /-- Subtraction. -/
  sub : ν → ν → ν
  /-- The line that `print` emits. -/
  text : ν → String

instance : NumberSystem Double where
  ofNat := Double.ofNat
  add := Double.add
  sub := Double.sub
  text := Double.text

instance : NumberSystem Int where
  ofNat := Int.ofNat
  add := (· + ·)
  sub := (· - ·)
  text n := String.ofList (signMark (decide (n < 0)) ++ Nat.toDigits 10 n.natAbs)

/-- The natural number that a literal denotes.  A literal is a run of digits that
is not empty. -/
def literalValue? (text : String) : Option Nat :=
  if text.toList ≠ [] ∧ text.toList.all Char.isDigit then
    some (Nat.ofDigitChars 10 text.toList 0)
  else none

/-- The number that a literal denotes. -/
def literal? (ν : Type) [NumberSystem ν] (text : String) : Option ν :=
  (literalValue? text).map NumberSystem.ofNat

end SumScript
