import Mathlib.Algebra.Order.Field.Power
import SumScript.Proofs.Decimal.Shortest
import SumScript.Proofs.Double.Bits

/-!
# The fewest digits

The shortest decimal of a double deserves its name: no decimal that rounds to the double
has fewer significant digits (`Decimal.isShortest`).

The numbers that read back are an interval around the exact value, so where both
neighbours of the value fail on a grid, the whole grid does (`not_reads_of_eq_none`).  The
search has seen this happen on the grid of steps ten times as long as the one it ends at,
unless it ends at once, with the digit one (`Decimal.shortest_spec`).  A decimal with fewer
digits than the one found would lie on that grid, or below a power of ten that does and
that is not above the one found.  Then the power of ten reads back too.
-/

namespace SumScript

/-! ## Grids without a reading -/

theorem not_reads_of_eq_none {reads : Nat → Bool}
    (hconvex : ∀ {lo n hi}, lo ≤ n → n ≤ hi → reads lo → reads hi → reads n)
    {value step : Nat} (hstep : 0 < step) (hvalue : reads value)
    (h : nearestReading? reads value step = none) (n : Nat) : ¬ reads (n * step) := by
  have hfail : ¬ reads (value / step * step) ∧ ¬ reads ((value / step + 1) * step) := by
    rw [nearestReading?] at h
    split at h
    next => cases h
    next => cases h
    next => cases h
    next hbelow habove => exact ⟨Bool.eq_false_iff.mp hbelow, Bool.eq_false_iff.mp habove⟩
  intro hreads
  rcases Nat.lt_or_ge (value / step) n with hlt | hle
  · refine hfail.2 (hconvex ?_ (Nat.mul_le_mul_right step hlt) hvalue hreads)
    exact (Nat.lt_mul_of_div_lt (Nat.lt_succ_self _) hstep).le
  · exact hfail.1 (hconvex (Nat.mul_le_mul_right step hle) (Nat.div_mul_le_self _ _) hreads hvalue)

theorem readsBack_convex {quanta lo n hi : Nat} (hlo : lo ≤ n) (hhi : n ≤ hi)
    (h : readsBack quanta lo) (h' : readsBack quanta hi) : readsBack quanta n := by
  rw [readsBack_iff] at h h' ⊢
  exact Nat.le_antisymm (h' ▸ roundQuanta_mono hhi _) (h ▸ roundQuanta_mono hlo _)

theorem readsBack_pos {quanta n : Nat} (hpos : 0 < quanta) (h : readsBack quanta n) : 0 < n := by
  refine Nat.pos_of_ne_zero ?_
  rintro rfl
  have hzero := roundQuanta_mul_grains 0
  rw [Nat.zero_mul, readsBack_iff.mp h, roundQuanta_of_representable representable_zero] at hzero
  omega

/-- The shortest decimal reads back.  Unless its one digit is a one, no number of grains
does that ends in one more zero.  It is a one where the step of the first grid is longer
than the value, whose neighbours are zero and one. -/
theorem Decimal.shortest_spec {quanta : Nat} (hpos : 0 < quanta) (h : Representable quanta) :
    ∃ j c : Nat, Decimal.shortest quanta = ⟨c, (j : Int) - 1074⟩ ∧
      readsBack quanta (c * tenPow j) ∧
      (c = 1 ∨ ∀ n, ¬ readsBack quanta (n * tenPow (j + 1))) := by
  have hreads := readsBack_self h
  have hlt := lt_tenPow_digitBound (quanta * grainsPerQuantum)
  have hstart : 0 < digitBound (quanta * grainsPerQuantum) := Nat.succ_pos _
  obtain ⟨j, c, hsearch, hc, hsome, hcoarse⟩ :=
    exists_searchGrids hreads (digitBound (quanta * grainsPerQuantum))
  refine ⟨j, c, hsearch, hc, ?_⟩
  rcases Nat.lt_or_ge j (digitBound (quanta * grainsPerQuantum)) with hj | hj
  · exact Or.inr (not_reads_of_eq_none readsBack_convex (tenPow_pos _) hreads
      (hcoarse (j + 1) (Nat.lt_succ_self j) hj))
  · have hzero : quanta * grainsPerQuantum / tenPow j = 0 :=
      Nat.div_eq_of_lt (hlt.trans_le (Nat.pow_le_pow_right (by decide) hj))
    obtain ⟨-, heq⟩ := nearestReading?_eq_some (hsome (hstart.trans_le hj))
    have hcpos : 0 < c := Nat.pos_of_mul_pos_right (readsBack_pos hpos hc)
    omega

/-! ## Significant digits -/

/-- The rational number that a decimal stands for. -/
def Decimal.value (d : Decimal) : ℚ := d.coefficient * 10 ^ d.exponent

/-- The number can be written with at most `k` significant digits. -/
def WrittenWith (k : Nat) (q : ℚ) : Prop := ∃ (c : Nat) (e : ℤ), c < 10 ^ k ∧ |q| = c * 10 ^ e

/-- Zeros at the end of the coefficient count for the exponent. -/
theorem coefficient_mul_pow (c n : Nat) (e : ℤ) :
    ((c * 10 ^ n : Nat) : ℚ) * 10 ^ e = c * 10 ^ (e + n) := by
  rw [zpow_add₀ (by norm_num), zpow_natCast]
  push_cast
  ring

theorem cast_tenPow (j : Nat) : (tenPow j : ℚ) = 10 ^ j := Nat.cast_pow 10 j

theorem cast_grains (c j : Nat) :
    ((c * tenPow j : Nat) : ℚ) / grainsPerQuantum = c * 10 ^ ((j : ℤ) - 1074) * 2 ^ 1074 := by
  have hwhole : (10 : ℚ) ^ 1074 = 2 ^ 1074 * grainsPerQuantum := by
    rw [← cast_tenPow, tenPow_whole, Nat.cast_mul, Magnitude.cast_one]
  have hgrains : (grainsPerQuantum : ℚ) ≠ 0 := Nat.cast_ne_zero.mpr grainsPerQuantum_pos.ne'
  have hquanta : (2 : ℚ) ^ 1074 ≠ 0 := pow_ne_zero _ two_ne_zero
  rw [zpow_sub₀ (by norm_num), zpow_natCast, zpow_ofNat, hwhole, Nat.cast_mul, cast_tenPow]
  generalize (2 : ℚ) ^ 1074 = one at hquanta
  field_simp

/-- To read back is to be nearest. -/
theorem readsBack_iff_isNearest {quanta c j : Nat} :
    readsBack quanta (c * tenPow j) ↔
      IsNearest (c * 10 ^ ((j : ℤ) - 1074) * 2 ^ 1074) quanta := by
  rw [readsBack_iff, ← isNearest_iff _ grainsPerQuantum_pos, cast_grains]

/-! ## The shortest decimal -/

/-- The decimal is the shortest one of a double, given by its quanta. -/
structure Decimal.IsShortest (d : Decimal) (quanta : Nat) : Prop where
  isNearest : IsNearest (d.value * 2 ^ 1074) quanta
  pos : 0 < d.coefficient
  /-- Its last digit is needed. -/
  trimmed : ¬ 10 ∣ d.coefficient
  /-- A decimal that rounds to the same double has at least as many significant digits. -/
  fewest : ∀ q k, IsNearest (|q| * 2 ^ 1074) quanta → WrittenWith k q → d.coefficient < 10 ^ k

section

variable {quanta c j : Nat} (hpos : 0 < quanta) (hc : readsBack quanta (c * tenPow j))
  (hcoarse : c = 1 ∨ ∀ n, ¬ readsBack quanta (n * tenPow (j + 1)))

include hc hcoarse

theorem not_ten_dvd : ¬ 10 ∣ c := by
  rcases hcoarse with rfl | hcoarse
  · decide
  · rintro ⟨n, rfl⟩
    refine hcoarse n ?_
    rwa [tenPow_succ, Nat.mul_left_comm, ← Nat.mul_assoc]

include hpos

/-- What rounds to the number cannot be written with fewer digits.  If it could, it would lie
on the coarser grid itself, or else a power of ten of that grid would lie between two
numbers that read back. -/
theorem lt_of_writtenWith {q : ℚ} (hq : IsNearest (|q| * 2 ^ 1074) quanta) {k : Nat}
    (hk : WrittenWith k q) : c < 10 ^ k := by
  obtain ⟨c', e', hlt, habs⟩ := hk
  rw [habs] at hq
  by_contra hge
  cases k with
  | zero =>
      obtain rfl : c' = 0 := Nat.lt_one_iff.mp hlt
      rw [Nat.cast_zero, zero_mul, zero_mul] at hq
      exact hpos.ne' hq.eq_zero
  | succ k =>
      have hle : 10 ^ (k + 1) ≤ c := Nat.not_lt.mp hge
      have hnone := hcoarse.resolve_left
        (Nat.ne_of_gt ((Nat.one_lt_pow (Nat.succ_ne_zero k) (by decide)).trans_le hle))
      have hexponent : e' ≤ (j : ℤ) - 1074 := by
        by_contra hgt
        obtain ⟨n, hn⟩ := Int.le.dest (Int.not_le.mp hgt)
        refine hnone (c' * 10 ^ n) (readsBack_iff_isNearest.mpr ?_)
        rw [coefficient_mul_pow, Nat.cast_succ]
        convert hq using 4
        omega
      have hpower : ((10 ^ k : Nat) : ℚ) * 10 ^ (((j + 1 : Nat) : ℤ) - 1074) =
          (10 ^ (k + 1) : Nat) * 10 ^ ((j : ℤ) - 1074) := by
        rw [Nat.pow_add 10 k 1, coefficient_mul_pow, Nat.cast_succ, Nat.cast_one,
          add_sub_right_comm]
      refine hnone (10 ^ k) (readsBack_iff_isNearest.mpr
        (hq.between (readsBack_iff_isNearest.mp hc) ?_ ?_))
      · rw [hpower]
        gcongr
        norm_num
      · rw [hpower]
        gcongr

end

theorem Decimal.isShortest {quanta : Nat} (hpos : 0 < quanta) (h : Representable quanta) :
    (Decimal.shortest quanta).IsShortest quanta := by
  obtain ⟨j, c, heq, hc, hcoarse⟩ := Decimal.shortest_spec hpos h
  rw [heq]
  exact {
    isNearest := readsBack_iff_isNearest.mp hc
    pos := Nat.pos_of_mul_pos_right (readsBack_pos hpos hc)
    trimmed := not_ten_dvd hc hcoarse
    fewest := fun _ _ hq hk => lt_of_writtenWith hpos hc hcoarse hq hk }

end SumScript
