import SumScript.Double.Basic

/-!
# Rounding to the nearest double

Every number that a program meets is first known exactly, as a quotient of two
naturals, and then rounded once.  `divNearest` rounds a quotient to a whole
number, a half going to the even neighbour.  `roundQuanta` uses it on the grid
that the size of the quotient prescribes: the step of the grid is the power of
two that leaves 53 significant bits, and it is one quantum for small values.

The result of rounding is again a count of quanta with at most 53 significant
bits.  The only way out is a carry past `Magnitude.limit`, which `Double.nearest`
answers with an infinity.
-/

namespace SumScript

/-! ## Quotients -/

/-- The natural number nearest to `num / den`; a half goes to the even one. -/
def divNearest (num den : Nat) : Nat :=
  if 2 * (num % den) < den then num / den
  else if den < 2 * (num % den) then num / den + 1
  else num / den + num / den % 2

theorem divNearest_le (num den : Nat) : divNearest num den ≤ num / den + 1 := by
  unfold divNearest
  split
  · omega
  · split <;> omega

/-! ## Quanta -/

/-- `num / den` quanta, rounded to 53 significant bits.  The result may reach
`Magnitude.limit` or lie beyond it. -/
def roundQuanta (num den : Nat) : Nat :=
  let excess := Magnitude.excess (num / den)
  divNearest num (den <<< excess) <<< excess

/-- Before rounding the significand has at most 53 bits. -/
theorem significand_floor_lt (num den : Nat) :
    num / (den <<< Magnitude.excess (num / den)) < 1 <<< 53 := by
  rw [Nat.one_shiftLeft, Nat.shiftLeft_eq, ← Nat.div_div_eq_div_mul,
    Nat.div_lt_iff_lt_mul (Nat.two_pow_pos _), ← Nat.pow_add]
  refine Nat.lt_of_lt_of_le Nat.lt_log2_self (Nat.pow_le_pow_right (by decide) ?_)
  rw [Magnitude.excess]; omega

/-- The significand that rounding leaves has 53 bits, or it is the carry out of
them. -/
theorem significand_le (num den : Nat) :
    divNearest num (den <<< Magnitude.excess (num / den)) ≤ 1 <<< 53 := by
  have hfloor := significand_floor_lt num den
  have hle := divNearest_le num (den <<< Magnitude.excess (num / den))
  omega

theorem representable_roundQuanta {num den : Nat}
    (h : roundQuanta num den < Magnitude.limit) : Representable (roundQuanta num den) :=
  representable_shiftLeft (significand_le num den) h

/-! ## Doubles -/

/-- The double nearest to `num / den` quanta with the given sign; an infinity if
rounding reaches `Magnitude.limit`. -/
def Double.nearest (negative : Bool) (num den : Nat) : Double :=
  if h : roundQuanta num den < Magnitude.limit then
    .finite negative ⟨roundQuanta num den, representable_roundQuanta h⟩
  else
    .infinite negative

/-- The double nearest to a natural number. -/
def Double.ofNat (n : Nat) : Double :=
  .nearest false (n * Magnitude.one) 1

end SumScript
