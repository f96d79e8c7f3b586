/-!
# Double-precision numbers

The numbers of the language are the IEEE 754 binary64 values: a sign and a
finite magnitude, an infinity with a sign, or not a number.  All values that
are not numbers are one value here, because no program can tell them apart.

A finite magnitude is a whole number of *quanta*.  One quantum is 2 to the power
-1074, the least positive double, and every finite double is a multiple of it.
A count of quanta belongs to a double when it lies below `Magnitude.limit` and
has no more than 53 significant bits (`Representable`).  Counting quanta keeps
all of the arithmetic exact: sums are sums of integers, and rounding is the only
step that loses anything.
-/

namespace SumScript

/-! ## Magnitudes -/

/-- The number of quanta in `1`. -/
def Magnitude.one : Nat := 1 <<< 1074

/-- The number of quanta in 2 to the power 1024.  Finite magnitudes lie below it. -/
def Magnitude.limit : Nat := 1 <<< 2098

/-- How many low bits of `n` lie beyond the first 53. -/
def Magnitude.excess (n : Nat) : Nat := n.log2 - 52

/-- `n` quanta are the magnitude of a finite double: they stay below the limit,
and the bits beyond the first 53 are zero. -/
def Representable (n : Nat) : Prop :=
  n < Magnitude.limit ∧ n % (1 <<< Magnitude.excess n) = 0

instance (n : Nat) : Decidable (Representable n) :=
  inferInstanceAs (Decidable (_ ∧ _))

/-- The magnitude of a finite double. -/
structure Magnitude where
  /-- The magnitude as a number of quanta. -/
  quanta : Nat
  /-- The number fits a significand of 53 bits. -/
  representable : Representable quanta
deriving DecidableEq

theorem Magnitude.shiftLeft_le_limit {k : Nat} (h : k ≤ 2098) : 1 <<< k ≤ Magnitude.limit := by
  unfold Magnitude.limit
  rw [Nat.one_shiftLeft, Nat.one_shiftLeft]
  apply Nat.pow_le_pow_right
  · decide
  · exact h

theorem Magnitude.limit_pos : 0 < Magnitude.limit :=
  Nat.lt_of_lt_of_le (by decide) (shiftLeft_le_limit (Nat.zero_le 2098))

theorem representable_zero : Representable 0 :=
  ⟨Magnitude.limit_pos, Nat.zero_mod _⟩

/-- A significand of at most 53 bits, or the carry out of one, stays representable
under any shift that keeps it below the limit. -/
theorem representable_shiftLeft {m k : Nat} (hm : m ≤ 1 <<< 53)
    (hlt : m <<< k < Magnitude.limit) : Representable (m <<< k) := by
  refine ⟨hlt, ?_⟩
  rw [Nat.one_shiftLeft] at hm ⊢
  rw [Nat.shiftLeft_eq]
  apply Nat.mod_eq_zero_of_dvd
  by_cases h0 : m = 0
  · simp [h0]
  · have hne : m * 2 ^ k ≠ 0 := Nat.mul_ne_zero h0 (Nat.pos_iff_ne_zero.mp (Nat.two_pow_pos k))
    by_cases hcarry : m = 2 ^ 53
    · have hlog : (m * 2 ^ k).log2 = 53 + k := by
        rw [hcarry, ← Nat.pow_add, Nat.log2_two_pow]
      have hexcess : Magnitude.excess (m * 2 ^ k) = k + 1 := by
        rw [Magnitude.excess, hlog]; omega
      rw [hexcess, hcarry, ← Nat.pow_add]
      exact Nat.pow_dvd_pow 2 (by omega)
    · have hm' : m < 2 ^ 53 := by omega
      have hlog : (m * 2 ^ k).log2 < 53 + k := by
        rw [Nat.log2_lt hne, Nat.pow_add]
        exact Nat.mul_lt_mul_of_pos_right hm' (Nat.two_pow_pos k)
      have hexcess : Magnitude.excess (m * 2 ^ k) ≤ k := by
        rw [Magnitude.excess]; omega
      exact Nat.dvd_trans (Nat.pow_dvd_pow 2 hexcess) (Nat.dvd_mul_left _ _)

/-- The magnitude of both zeros. -/
def Magnitude.zero : Magnitude := ⟨0, representable_zero⟩

/-! ## Doubles -/

/-- A double-precision number. -/
inductive Double where
  /-- Not a number. -/
  | nan
  /-- An infinity, negative if the flag is set. -/
  | infinite (negative : Bool)
  /-- A finite number, zeros included; the flag is its sign bit. -/
  | finite (negative : Bool) (magnitude : Magnitude)
deriving DecidableEq

/-- The exact value of a signed magnitude, counted in quanta. -/
def Double.signed (negative : Bool) (magnitude : Magnitude) : Int :=
  if negative then -(magnitude.quanta : Int) else magnitude.quanta

/-- The same number with the other sign. -/
def Double.neg : Double → Double
  | .nan => .nan
  | .infinite negative => .infinite !negative
  | .finite negative magnitude => .finite (!negative) magnitude

/-- Whether two doubles are the same number: the zeros are, and no value that
is not a number equals anything. -/
def Double.sameNumber : Double → Double → Bool
  | .infinite a, .infinite b => a == b
  | .finite a m, .finite b n => signed a m == signed b n
  | _, _ => false

end SumScript
