import SumScript.Double.Rounding

/-!
# Laws of rounding

Rounding depends on the quotient alone and not on the two numbers that stand for
it (`roundQuanta_mul_right`).  It fixes what it can represent
(`roundQuanta_of_representable`), it keeps the order (`roundQuanta_mono`), and a
multiple of a power of two stays one (`shift_dvd_roundQuanta`).

The order needs an argument only where the grid changes.  On a coarser grid every
result has all of its 53 bits, so it lies above all results on finer ones
(`roundQuanta_le`, `le_roundQuanta`).
-/

namespace SumScript

/-! ## Magnitudes and signs -/

theorem Magnitude.eq_of_quanta {m n : Magnitude} (h : m.quanta = n.quanta) : m = n := by
  cases m
  cases h
  rfl

theorem Double.natAbs_signed (negative : Bool) (m : Magnitude) :
    (Double.signed negative m).natAbs = m.quanta := by
  cases negative with
  | true => exact Int.natAbs_neg _
  | false => rfl

theorem Double.signed_not (negative : Bool) (m : Magnitude) :
    Double.signed (!negative) m = -Double.signed negative m := by
  cases negative with
  | true => exact (Int.neg_neg _).symm
  | false => rfl

/-! ## Quotients -/

theorem le_divNearest (num den : Nat) : num / den ≤ divNearest num den := by
  unfold divNearest
  split
  · omega
  · split <;> omega

theorem divNearest_mul_right (num den : Nat) {k : Nat} (hk : 0 < k) :
    divNearest (num * k) (den * k) = divNearest num den := by
  have hlt : 2 * (num % den * k) < den * k ↔ 2 * (num % den) < den := by
    rw [← Nat.mul_assoc]
    exact Nat.mul_lt_mul_right hk
  have hgt : den * k < 2 * (num % den * k) ↔ den < 2 * (num % den) := by
    rw [← Nat.mul_assoc]
    exact Nat.mul_lt_mul_right hk
  simp only [divNearest, Nat.mul_mod_mul_right, Nat.mul_div_mul_right _ _ hk, hlt, hgt]

/-- A quotient that comes out even is not rounded. -/
theorem divNearest_mul_self (n : Nat) {den : Nat} (h : 0 < den) : divNearest (n * den) den = n := by
  simp [divNearest, h]

/-- Rounding keeps the order.  Where the floors agree, the remainders are in order. -/
theorem divNearest_mono {a b : Nat} (h : a ≤ b) (den : Nat) :
    divNearest a den ≤ divNearest b den := by
  have hfloor : a / den ≤ b / den := Nat.div_le_div_right h
  rcases Nat.lt_or_eq_of_le hfloor with hlt | heq
  · calc divNearest a den ≤ a / den + 1 := divNearest_le a den
      _ ≤ b / den := hlt
      _ ≤ divNearest b den := le_divNearest b den
  · have ha := Nat.div_add_mod a den
    have hb := Nat.div_add_mod b den
    rw [heq] at ha
    have hrest : a % den ≤ b % den := by omega
    unfold divNearest
    rw [heq]
    repeat' split
    all_goals omega

/-! ## Quanta -/

theorem shift_pos (k : Nat) : 0 < 1 <<< k := by
  rw [Nat.one_shiftLeft]
  exact Nat.two_pow_pos k

theorem shift_dvd_shift {j k : Nat} (h : j ≤ k) : 1 <<< j ∣ 1 <<< k := by
  rw [Nat.one_shiftLeft, Nat.one_shiftLeft]
  exact Nat.pow_dvd_pow 2 h

theorem shift_lt_shift {j k : Nat} (h : j < k) : 1 <<< j < 1 <<< k := by
  rw [Nat.one_shiftLeft, Nat.one_shiftLeft]
  exact Nat.pow_lt_pow_right (by decide) h

theorem roundQuanta_mul_right (num den : Nat) {k : Nat} (hk : 0 < k) :
    roundQuanta (num * k) (den * k) = roundQuanta num den := by
  have hshift : ∀ e, (den * k) <<< e = den <<< e * k := by
    intro e
    rw [Nat.shiftLeft_eq, Nat.shiftLeft_eq, Nat.mul_right_comm]
  simp only [roundQuanta, Nat.mul_div_mul_right _ _ hk, hshift, divNearest_mul_right _ _ hk]

/-- Quanta on the grid that their size prescribes are not rounded. -/
theorem roundQuanta_of_dvd {n : Nat} (h : 1 <<< Magnitude.excess n ∣ n) : roundQuanta n 1 = n := by
  obtain ⟨m, hm⟩ := h
  rw [Nat.mul_comm] at hm
  have hdiv : divNearest n (1 <<< Magnitude.excess n) = m :=
    (congrArg (divNearest · _) hm).trans (divNearest_mul_self m (shift_pos _))
  rw [roundQuanta, Nat.div_one, hdiv, Nat.shiftLeft_eq, ← Nat.one_shiftLeft]
  exact hm.symm

theorem roundQuanta_of_representable {n : Nat} (h : Representable n) : roundQuanta n 1 = n :=
  roundQuanta_of_dvd (Nat.dvd_of_mod_eq_zero h.2)

/-- A multiple of a power of two is rounded to a multiple of it: it lies on the grid
already, or the grid is coarser than the power. -/
theorem shift_dvd_roundQuanta {k n : Nat} (h : 1 <<< k ∣ n) : 1 <<< k ∣ roundQuanta n 1 := by
  rcases Nat.le_total (Magnitude.excess n) k with hle | hle
  · rwa [roundQuanta_of_dvd (Nat.dvd_trans (shift_dvd_shift hle) h)]
  · refine Nat.dvd_trans (shift_dvd_shift hle) ?_
    rw [roundQuanta, Nat.div_one, Nat.shiftLeft_eq (divNearest _ _), ← Nat.one_shiftLeft]
    exact Nat.dvd_mul_left _ _

/-! ## Order -/

theorem roundQuanta_le (num den : Nat) :
    roundQuanta num den ≤ 1 <<< (53 + Magnitude.excess (num / den)) := by
  rw [roundQuanta, Nat.shiftLeft_add, Nat.shiftLeft_eq, Nat.shiftLeft_eq (1 <<< 53)]
  exact Nat.mul_le_mul_right _ (significand_le num den)

/-- On a grid coarser than one quantum the significand has all of its 53 bits. -/
theorem le_significand_floor {num den : Nat} (h : 0 < Magnitude.excess (num / den)) :
    1 <<< 52 ≤ num / (den <<< Magnitude.excess (num / den)) := by
  have hlog : 52 + Magnitude.excess (num / den) ≤ (num / den).log2 := by
    unfold Magnitude.excess at h ⊢
    omega
  have hne : num / den ≠ 0 := by
    intro hzero
    rw [hzero, Nat.log2_zero] at hlog
    omega
  rw [Nat.one_shiftLeft, Nat.shiftLeft_eq, ← Nat.div_div_eq_div_mul,
    Nat.le_div_iff_mul_le (Nat.two_pow_pos _), ← Nat.pow_add]
  exact (Nat.le_log2 hne).mp hlog

theorem le_roundQuanta {num den : Nat} (h : 0 < Magnitude.excess (num / den)) :
    1 <<< (52 + Magnitude.excess (num / den)) ≤ roundQuanta num den := by
  rw [roundQuanta, Nat.shiftLeft_add, Nat.shiftLeft_eq, Nat.shiftLeft_eq (divNearest _ _)]
  exact Nat.mul_le_mul_right _ (Nat.le_trans (le_significand_floor h) (le_divNearest _ _))

theorem excess_mono {a b : Nat} (h : a ≤ b) : Magnitude.excess a ≤ Magnitude.excess b := by
  have hlog : a.log2 ≤ b.log2 := by
    by_cases ha : a = 0
    · rw [ha, Nat.log2_zero]
      exact Nat.zero_le _
    · have hb : b ≠ 0 := by omega
      exact (Nat.le_log2 hb).mpr (Nat.le_trans (Nat.log2_self_le ha) h)
  exact Nat.sub_le_sub_right hlog 52

theorem roundQuanta_mono {a b : Nat} (h : a ≤ b) (den : Nat) :
    roundQuanta a den ≤ roundQuanta b den := by
  rcases Nat.lt_or_eq_of_le (excess_mono (Nat.div_le_div_right h (c := den))) with hlt | heq
  · calc roundQuanta a den ≤ 1 <<< (53 + Magnitude.excess (a / den)) := roundQuanta_le a den
      _ ≤ 1 <<< (52 + Magnitude.excess (b / den)) :=
          Nat.le_of_dvd (shift_pos _) (shift_dvd_shift (by omega))
      _ ≤ roundQuanta b den := le_roundQuanta (by omega)
  · simp only [roundQuanta, heq, Nat.shiftLeft_eq]
    exact Nat.mul_le_mul_right _ (divNearest_mono h _)

/-! ## Whole numbers -/

/-- A magnitude without a fraction. -/
def Magnitude.IsWhole (m : Magnitude) : Prop := Magnitude.one ∣ m.quanta

/-- The doubles that a literal can denote are whole numbers without a sign, and the
infinity. -/
theorem Double.ofNat_cases (n : Nat) :
    Double.ofNat n = .infinite false ∨ ∃ m, Double.ofNat n = .finite false m ∧ m.IsWhole := by
  unfold Double.ofNat Double.nearest
  split
  next h => exact Or.inr ⟨_, rfl, shift_dvd_roundQuanta (Nat.dvd_mul_left _ n)⟩
  next => exact Or.inl rfl

theorem Double.nearest_eq {num den : Nat} {m : Magnitude} (h : roundQuanta num den = m.quanta)
    (negative : Bool) : Double.nearest negative num den = .finite negative m := by
  obtain ⟨quanta, hrepresentable⟩ := m
  subst h
  exact dif_pos hrepresentable.1

/-- A significand on a grid that is not too coarse needs no rounding. -/
theorem representable_mul_shift {m k : Nat} (hm : m ≤ 1 <<< 53) (hk : k < 2045) :
    Representable (m * 1 <<< k) := by
  have hshift : m * 1 <<< k = m <<< k := by
    rw [Nat.one_shiftLeft, Nat.shiftLeft_eq]
  have hle : m * 1 <<< k ≤ 1 <<< (53 + k) := by
    rw [Nat.shiftLeft_add, Nat.shiftLeft_eq (1 <<< 53), ← Nat.one_shiftLeft]
    exact Nat.mul_le_mul_right _ hm
  have hlt : m * 1 <<< k < Magnitude.limit := Nat.lt_of_le_of_lt hle (shift_lt_shift (by omega))
  rw [hshift] at hlt ⊢
  exact representable_shiftLeft hm hlt

/-- Natural numbers up to 2 to the power 53 need no rounding. -/
theorem representable_mul_one {n : Nat} (h : n ≤ 1 <<< 53) : Representable (n * Magnitude.one) :=
  representable_mul_shift h (by decide)

end SumScript
