import SumScript.Decimal.Basic
import SumScript.Double.Rounding

/-!
# The shortest decimal of a double

A double is written with the fewest digits that read back as the same double.
To find them, the double is first written out in full.  The last digit that a
double can have stands for 10 to the power -1074, which is called a *grain*
here.  One quantum is 5 to the power 1074 grains, so every double is a whole
number of grains, and cutting off the last `j` digits of that number gives the
nearest decimals with `j` digits fewer.

The search goes from coarse grids to fine ones.  On each grid only the two
neighbours of the exact value are tried: if any number of the grid reads back
as the double, one of the neighbours does.  The first grid with a hit gives the
answer.  The grid of single grains holds the exact value itself, so the search
ends there at the latest.  If both neighbours read back the nearer one is
taken, and the upper one if they are equally near.
-/

namespace SumScript

/-- A power of ten. -/
def tenPow (j : Nat) : Nat := Nat.pow 10 j

/-- The number of grains in one quantum. -/
def grainsPerQuantum : Nat := Nat.pow 5 1074

/-- Whether a number of grains rounds to the given number of quanta. -/
def readsBack (quanta grains : Nat) : Bool := roundQuanta grains grainsPerQuantum == quanta

/-- Of the two multiples of `step` next to a value, the one that reads back, divided
by `step`; the nearer one if both do. -/
def nearestReading? (reads : Nat → Bool) (value step : Nat) : Option Nat :=
  let below := value / step
  match reads (below * step), reads ((below + 1) * step) with
  | true, true => some (if 2 * (value % step) < step then below else below + 1)
  | true, false => some below
  | false, true => some (below + 1)
  | false, false => none

/-- The first grid, from steps of `tenPow j` grains down to single grains, on which
the given number of grains reads back. -/
def searchGrids (reads : Nat → Bool) (grains : Nat) : Nat → Decimal
  | 0 => ⟨grains, -1074⟩
  | j + 1 =>
      match nearestReading? reads grains (tenPow (j + 1)) with
      | some c => ⟨c, ((j + 1 : Nat) : Int) - 1074⟩
      | none => searchGrids reads grains j

/-- A number of digits that is enough for `n`: 93 bits always fit into 28 digits,
so a number of `k` bits has at most `k * 28 / 93 + 1` digits. -/
def digitBound (n : Nat) : Nat := (n.log2 + 1) * 28 / 93 + 1

theorem lt_tenPow_digitBound (n : Nat) : n < tenPow (digitBound n) := by
  rw [tenPow, Nat.pow_eq]
  have hlog : n < 2 ^ (n.log2 + 1) := Nat.lt_log2_self
  have hbits : (2 ^ (n.log2 + 1)) ^ 93 ≤ (10 ^ digitBound n) ^ 93 := by
    calc (2 ^ (n.log2 + 1)) ^ 93 = (2 ^ 93) ^ (n.log2 + 1) := by
          rw [← Nat.pow_mul, ← Nat.pow_mul, Nat.mul_comm]
      _ ≤ (10 ^ 28) ^ (n.log2 + 1) := Nat.pow_le_pow_left (by decide) _
      _ = 10 ^ (28 * (n.log2 + 1)) := by rw [← Nat.pow_mul]
      _ ≤ 10 ^ (digitBound n * 93) := by
          refine Nat.pow_le_pow_right (by decide) ?_
          rw [digitBound]; omega
      _ = (10 ^ digitBound n) ^ 93 := Nat.pow_mul ..
  exact Nat.lt_of_lt_of_le hlog ((Nat.pow_le_pow_iff_left (by decide)).mp hbits)

/-- The decimal with the fewest digits that reads back as the given number of
quanta, which is not zero.  The search starts at a grid coarser than the
number. -/
def Decimal.shortest (quanta : Nat) : Decimal :=
  let grains := quanta * grainsPerQuantum
  searchGrids (readsBack quanta) grains (digitBound grains)

end SumScript
