import SumScript.Double.Bits
import SumScript.Proofs.Double.Nearest

/-!
# Rounding to a bit pattern

A pattern of 64 bits stands for a number by its three fields alone.  `Bits.value` says
which one, as an exact rational number, and `RoundsTo` says what it means that a number
rounds to a pattern: no finite pattern has a nearer value, and one that is equally near
gives way only if the last bit is zero.  Both mention neither magnitudes nor rounding
functions, so they can be read beside the standard.

The rest connects them with magnitudes.  A finite pattern is a sign and a count of quanta
(`Bits.value_eq`), every magnitude below the limit has a pattern with either sign
(`Bits.exists_pattern`), and the last bit is that of the significand
(`Bits.even_quanta_iff`).  So a number rounds to a pattern when its distance from zero has
the quanta of the pattern nearest to it (`RoundsTo.isNearest`, `IsNearest.roundsTo`).
-/

namespace SumScript

/-! ## Fields -/

namespace Bits

/-- The sign bit. -/
def sign (b : UInt64) : Nat := b.toNat / 2 ^ 63

/-- The exponent field. -/
def exponent (b : UInt64) : Nat := b.toNat / 2 ^ 52 % 2 ^ 11

/-- The fraction field. -/
def fraction (b : UInt64) : Nat := b.toNat % 2 ^ 52

/-- The pattern stands for a number. -/
def IsFinite (b : UInt64) : Prop := exponent b < 2047

/-- The pattern stands for what is not a number. -/
def IsNaN (b : UInt64) : Prop := exponent b = 2047 ∧ fraction b ≠ 0

instance (b : UInt64) : Decidable (IsFinite b) := inferInstanceAs (Decidable (_ < _))

instance (b : UInt64) : Decidable (IsNaN b) := inferInstanceAs (Decidable (_ ∧ _))

/-- The number that a finite pattern stands for. -/
def value (b : UInt64) : ℚ :=
  (-1) ^ sign b *
    if exponent b = 0 then (fraction b : ℚ) * (2 : ℚ) ^ (-1074 : ℤ)
    else ((2 ^ 52 + fraction b : Nat) : ℚ) * (2 : ℚ) ^ ((exponent b : ℤ) - 1075)

end Bits

/-- The finite pattern `b` is what `q` rounds to, to nearest with ties to even. -/
structure RoundsTo (q : ℚ) (b : UInt64) : Prop where
  /-- Numbers from here on round to an infinity. -/
  bounded : |q| < 2 ^ 1024 - 2 ^ 970
  finite : Bits.IsFinite b
  nearest : ∀ c, Bits.IsFinite c → |q - Bits.value b| ≤ |q - Bits.value c|
  even : ∀ c, Bits.IsFinite c → Bits.value c ≠ Bits.value b →
    |q - Bits.value c| = |q - Bits.value b| → 2 ∣ Bits.fraction b

/-! ## Quanta -/

theorem Magnitude.cast_one : (Magnitude.one : ℚ) = 2 ^ 1074 := by
  have hshift : ∀ k, ((1 <<< k : Nat) : ℚ) = 2 ^ k := by
    intro k
    rw [Nat.one_shiftLeft, Nat.cast_pow, Nat.cast_ofNat]
  exact hshift 1074

namespace Bits

/-- The quanta of a finite pattern. -/
def quanta (b : UInt64) : Nat := Double.quantaOfFields (exponent b) (fraction b)

theorem sign_eq_zero_or_one (b : UInt64) : sign b = 0 ∨ sign b = 1 := by
  have hlt := b.toNat_lt
  rw [sign]
  omega

theorem fraction_lt (b : UInt64) : fraction b < 2 ^ 52 := Nat.mod_lt _ (by decide)

/-- The significand of a pattern is its fraction, with a leading one if the exponent field
is not zero. -/
theorem exists_scaled (b : UInt64) :
    ∃ s e, Scaled s e ∧ quanta b = s * 2 ^ e ∧ (2 ∣ s ↔ 2 ∣ fraction b) := by
  have hfraction := fraction_lt b
  unfold quanta Double.quantaOfFields
  split
  · exact ⟨fraction b, 0, ⟨by omega, Or.inl rfl⟩, (Nat.mul_one _).symm, Iff.rfl⟩
  · refine ⟨2 ^ 52 + fraction b, exponent b - 1, ⟨by omega, Or.inr (by omega)⟩, ?_, by omega⟩
    rw [Nat.shiftLeft_eq, Nat.one_shiftLeft]

theorem onGrid_quanta (b : UInt64) : OnGrid (quanta b) := by
  obtain ⟨s, e, h, heq, -⟩ := exists_scaled b
  exact heq ▸ h.onGrid

theorem even_quanta_iff (b : UInt64) : EvenOnGrid (quanta b) ↔ 2 ∣ fraction b := by
  obtain ⟨s, e, h, heq, heven⟩ := exists_scaled b
  rw [heq, h.even_iff, heven]

theorem value_eq (b : UInt64) : value b = (-1) ^ sign b * (quanta b / 2 ^ 1074) := by
  unfold value quanta Double.quantaOfFields
  congr 1
  split
  · rw [zpow_neg, div_eq_mul_inv]
    rfl
  · next hne =>
    have hexponent : (2 : ℚ) ^ ((exponent b : ℤ) - 1075) = 2 ^ (exponent b - 1) / 2 ^ 1074 := by
      rw [← zpow_natCast, ← zpow_natCast, ← zpow_sub₀ two_ne_zero]
      congr 1
      omega
    rw [hexponent, Nat.shiftLeft_eq, Nat.one_shiftLeft, mul_div_assoc']
    push_cast
    rfl

theorem value_of_unsigned {b : UInt64} (h : sign b = 0) : value b = quanta b / 2 ^ 1074 := by
  rw [value_eq, h, pow_zero, one_mul]

theorem abs_value (b : UInt64) : |value b| = quanta b / 2 ^ 1074 := by
  rw [value_eq, abs_mul, abs_pow, abs_neg, abs_one, one_pow, one_mul]
  exact abs_of_nonneg (by positivity)

theorem quanta_eq_of_value {b c : UInt64} (h : value b = value c) : quanta b = quanta c := by
  have habs : (quanta b : ℚ) / 2 ^ 1074 = quanta c / 2 ^ 1074 := by
    rw [← abs_value, ← abs_value, h]
  exact_mod_cast (div_left_inj' (by positivity)).mp habs

theorem value_eq_zero_iff {b : UInt64} : value b = 0 ↔ quanta b = 0 := by
  rw [← abs_eq_zero, abs_value, div_eq_zero_iff, or_iff_left (by positivity), Nat.cast_eq_zero]

theorem value_neg_iff {b : UInt64} : value b < 0 ↔ sign b = 1 ∧ quanta b ≠ 0 := by
  have hmagnitude : 0 ≤ (quanta b : ℚ) / 2 ^ 1074 := abs_value b ▸ abs_nonneg _
  rcases sign_eq_zero_or_one b with hsign | hsign
  · rw [value_of_unsigned hsign, hsign]
    exact iff_of_false (not_lt.mpr hmagnitude) (by simp)
  · have hnonpos : value b ≤ 0 := by
      rw [value_eq, hsign, pow_one, neg_one_mul]
      exact neg_nonpos.mpr hmagnitude
    rw [and_iff_right hsign, ← value_eq_zero_iff.ne, hnonpos.lt_iff_ne]

theorem isInt_value_iff {b : UInt64} : (∃ z : ℤ, value b = z) ↔ Magnitude.one ∣ quanta b := by
  have hpos : (0 : ℚ) < 2 ^ 1074 := by positivity
  have hquanta : ∀ n : Nat, |value b| = n ↔ quanta b = Magnitude.one * n := by
    intro n
    rw [abs_value, div_eq_iff hpos.ne', ← Magnitude.cast_one, mul_comm]
    exact_mod_cast Iff.rfl
  constructor
  · rintro ⟨z, hz⟩
    refine ⟨z.natAbs, (hquanta _).mp ?_⟩
    rw [hz, Nat.cast_natAbs, Int.cast_abs]
  · rintro ⟨n, hn⟩
    rcases eq_or_eq_neg_of_abs_eq ((hquanta n).mpr hn) with hvalue | hvalue
    · exact ⟨n, by rw [hvalue, Int.cast_natCast]⟩
    · exact ⟨-n, by rw [hvalue, Int.cast_neg, Int.cast_natCast]⟩

/-! ## Patterns and doubles -/

theorem exponent_eq (b : UInt64) : (b.toNat >>> 52) % 2048 = exponent b := by
  rw [Nat.shiftRight_eq_div_pow]
  rfl

theorem fraction_eq (b : UInt64) : b.toNat % 1 <<< 52 = fraction b := by
  rw [Nat.one_shiftLeft]
  rfl

theorem ofBits_of_isFinite {b : UInt64} (h : IsFinite b) :
    ∃ m, Double.ofBits b = .finite (decide (sign b = 1)) m ∧ m.quanta = quanta b := by
  have hsign : 1 <<< 63 ≤ b.toNat ↔ sign b = 1 := by
    have hlt := b.toNat_lt
    rw [Nat.one_shiftLeft, sign]
    omega
  have hfinite : (b.toNat >>> 52) % 2048 < 2047 := (exponent_eq b).trans_lt h
  refine ⟨_, (dif_pos hfinite).trans
    (congrArg (Double.finite · _) (decide_eq_decide.mpr hsign)), ?_⟩
  rw [quanta, ← exponent_eq, ← fraction_eq]

theorem ofBits_eq_nan_iff {b : UInt64} : Double.ofBits b = .nan ↔ IsNaN b := by
  by_cases h : IsFinite b
  · obtain ⟨m, hb, -⟩ := ofBits_of_isFinite h
    rw [hb]
    exact iff_of_false (by simp) fun hnan => h.ne hnan.1
  · have hexponent : exponent b = 2047 := by
      have hlt : exponent b < 2048 := Nat.mod_lt _ (by decide)
      rw [IsFinite] at h
      omega
    have hinfinite : ¬ (b.toNat >>> 52) % 2048 < 2047 := by rwa [exponent_eq]
    rw [Double.ofBits, dif_neg hinfinite, fraction_eq, IsNaN, and_iff_right hexponent]
    split
    next hzero => exact iff_of_false (by simp) (not_not.mpr hzero)
    next hne => exact iff_of_true rfl hne

theorem quanta_lt_limit {b : UInt64} (h : IsFinite b) : quanta b < Magnitude.limit := by
  obtain ⟨m, -, hm⟩ := ofBits_of_isFinite h
  exact hm ▸ m.representable.1

theorem fields_of_toNat {b : UInt64} {negative : Bool} {n : Nat} (hn : n < 2 ^ 63)
    (h : b.toNat = (if negative then 2 ^ 63 else 0) + n) :
    sign b = negative.toNat ∧ exponent b = n / 2 ^ 52 ∧ fraction b = n % 2 ^ 52 := by
  unfold sign exponent fraction
  rw [h]
  cases negative with
  | false =>
      simp only [Bool.false_eq_true, if_false, Bool.toNat_false]
      omega
  | true =>
      simp only [if_true, Bool.toNat_true]
      omega

/-- A significand of 53 bits counts the exponent field up by its leading one. -/
theorem quantaOfFields_of_scaled {s e : Nat} (h : Scaled s e) :
    Double.quantaOfFields ((e * 2 ^ 52 + s) / 2 ^ 52) ((e * 2 ^ 52 + s) % 2 ^ 52) = s * 2 ^ e := by
  have hlt := h.lt
  rcases Nat.lt_or_ge s (2 ^ 52) with hsmall | hlarge
  · obtain rfl : e = 0 := h.le.resolve_right (Nat.not_le.mpr hsmall)
    rw [Nat.zero_mul, Nat.zero_add, Nat.div_eq_of_lt hsmall, Nat.mod_eq_of_lt hsmall,
      Double.quantaOfFields, if_pos rfl, Nat.pow_zero, Nat.mul_one]
  · have hexponent : (e * 2 ^ 52 + s) / 2 ^ 52 = e + 1 := by omega
    have hfraction : 2 ^ 52 + (e * 2 ^ 52 + s) % 2 ^ 52 = s := by omega
    rw [hexponent, Double.quantaOfFields, if_neg (Nat.succ_ne_zero e), Nat.one_shiftLeft, hfraction,
      Nat.shiftLeft_eq, Nat.add_sub_cancel]

theorem magnitude_bits (m : Magnitude) :
    ∃ s e, Scaled s e ∧ e < 2046 ∧ m.quanta = s * 2 ^ e ∧ m.bits = e * 2 ^ 52 + s := by
  have hscaled := scaled_floor m.quanta 1
  rw [Nat.div_one, Nat.one_mul] at hscaled
  have hdvd : 2 ^ Magnitude.excess m.quanta ∣ m.quanta := by
    rw [← Nat.one_shiftLeft]
    exact Nat.dvd_of_mod_eq_zero m.representable.2
  have hquanta := (Nat.div_mul_cancel hdvd).symm
  refine ⟨_, _, hscaled, ?_, hquanta, ?_⟩
  · by_contra hge
    have hle : 2 ^ 52 ≤ m.quanta / 2 ^ Magnitude.excess m.quanta :=
      hscaled.le.resolve_left (by omega)
    refine Nat.not_le.mpr m.representable.1 ?_
    calc Magnitude.limit ≤ 1 <<< (52 + Magnitude.excess m.quanta) :=
          Nat.le_of_dvd (shift_pos _) (shift_dvd_shift (by omega))
      _ = 2 ^ 52 * 2 ^ Magnitude.excess m.quanta := by rw [Nat.one_shiftLeft, Nat.pow_add]
      _ ≤ m.quanta / 2 ^ Magnitude.excess m.quanta * 2 ^ Magnitude.excess m.quanta :=
          Nat.mul_le_mul_right _ hle
      _ = m.quanta := hquanta.symm
  · rw [Magnitude.bits, Nat.shiftLeft_eq, Nat.shiftRight_eq_div_pow]

/-- The pattern of a double has the sign and the quanta of the double. -/
theorem toBits_finite (negative : Bool) (m : Magnitude) :
    IsFinite (Double.finite negative m).toBits ∧
      sign (Double.finite negative m).toBits = negative.toNat ∧
      quanta (Double.finite negative m).toBits = m.quanta := by
  obtain ⟨s, e, hscaled, he, hquanta, hbits⟩ := magnitude_bits m
  have hlt := hscaled.lt
  have htoNat : (Double.finite negative m).toBits.toNat =
      (if negative then 2 ^ 63 else 0) + (e * 2 ^ 52 + s) := by
    rw [Double.toBits, hbits, Nat.one_shiftLeft]
    refine UInt64.toNat_ofNat_of_lt' ?_
    rw [UInt64.size]
    split <;> omega
  obtain ⟨hsign, hexponent, hfraction⟩ := fields_of_toNat (by omega) htoNat
  refine ⟨?_, hsign, ?_⟩
  · rw [IsFinite, hexponent]
    omega
  · rw [quanta, hexponent, hfraction, quantaOfFields_of_scaled hscaled, hquanta]

/-- Every magnitude on the grid has a pattern with either sign. -/
theorem exists_pattern {n : Nat} (hn : OnGrid n) (hlt : n < Magnitude.limit) (negative : Bool) :
    ∃ b, IsFinite b ∧ sign b = negative.toNat ∧ quanta b = n := by
  have hrepresentable : Representable n := by
    refine ⟨hlt, Nat.mod_eq_zero_of_dvd ?_⟩
    rw [Nat.one_shiftLeft]
    exact hn
  exact ⟨_, toBits_finite negative ⟨n, hrepresentable⟩⟩

theorem exists_pattern_of_sign {n : Nat} (hn : OnGrid n) (hlt : n < Magnitude.limit) (q : ℚ) :
    ∃ b, IsFinite b ∧ quanta b = n ∧ 0 ≤ q * value b := by
  obtain ⟨b, hfinite, hsign, hquanta⟩ := exists_pattern hn hlt (decide (q < 0))
  refine ⟨b, hfinite, hquanta, ?_⟩
  have hmagnitude : 0 ≤ (quanta b : ℚ) / 2 ^ 1074 := abs_value b ▸ abs_nonneg _
  rw [value_eq, hsign]
  by_cases hq : q < 0
  · rw [decide_eq_true hq, Bool.toNat_true, pow_one, neg_one_mul, mul_neg, ← neg_mul]
    exact mul_nonneg (neg_nonneg.mpr hq.le) hmagnitude
  · rw [decide_eq_false hq, Bool.toNat_false, pow_zero, one_mul]
    exact mul_nonneg (not_lt.mp hq) hmagnitude

end Bits

/-! ## Distances -/

theorem abs_sub_mul_quanta (q : ℚ) (b : UInt64) :
    |(|q| * 2 ^ 1074 - Bits.quanta b)| = |(|q| - |Bits.value b|)| * 2 ^ 1074 := by
  have hpos : (0 : ℚ) < 2 ^ 1074 := by positivity
  have hquanta : (Bits.quanta b : ℚ) = |Bits.value b| * 2 ^ 1074 := by
    rw [Bits.abs_value, div_mul_cancel₀ _ hpos.ne']
  rw [hquanta, ← sub_mul, abs_mul, abs_of_pos hpos]

/-- Without their signs numbers are no farther from each other. -/
theorem abs_quanta_le (q : ℚ) (b : UInt64) :
    |(|q| * 2 ^ 1074 - Bits.quanta b)| ≤ |q - Bits.value b| * 2 ^ 1074 := by
  rw [abs_sub_mul_quanta]
  exact mul_le_mul_of_nonneg_right (abs_abs_sub_abs_le _ _) (by positivity)

/-- Numbers with the same sign are as far from each other as without it. -/
theorem abs_quanta_eq {q : ℚ} {b : UInt64} (h : 0 ≤ q * Bits.value b) :
    |(|q| * 2 ^ 1074 - Bits.quanta b)| = |q - Bits.value b| * 2 ^ 1074 := by
  rw [abs_sub_mul_quanta]
  congr 1
  rcases mul_nonneg_iff.mp h with ⟨hq, hb⟩ | ⟨hq, hb⟩
  · rw [abs_of_nonneg hq, abs_of_nonneg hb]
  · rw [abs_of_nonpos hq, abs_of_nonpos hb, neg_sub_neg, abs_sub_comm]

/-! ## Rounding -/

/-- The bound in quanta. -/
theorem abs_lt_iff_quanta (q : ℚ) :
    |q| < 2 ^ 1024 - 2 ^ 970 ↔ |q| * 2 ^ 1074 < 2 ^ 2098 - 2 ^ 2044 := by
  have hpos : (0 : ℚ) < 2 ^ 1074 := by positivity
  have hscale : ((2 : ℚ) ^ 1024 - 2 ^ 970) * 2 ^ 1074 = 2 ^ 2098 - 2 ^ 2044 := by
    rw [sub_mul, ← pow_add, ← pow_add]
  rw [← hscale, mul_lt_mul_iff_left₀ hpos]

/-- What is nearest in quanta is nearest among the doubles.  A double with as many quanta but
another value has the other sign, and is as near only if all is zero. -/
theorem IsNearest.roundsTo {q : ℚ} {b : UInt64} (hb : Bits.IsFinite b)
    (h : IsNearest (|q| * 2 ^ 1074) (Bits.quanta b)) (hsign : 0 ≤ q * Bits.value b) :
    RoundsTo q b := by
  have hpos : (0 : ℚ) < 2 ^ 1074 := by positivity
  have hself := abs_quanta_eq hsign
  refine ⟨(abs_lt_iff_quanta q).mpr (h.lt_limit_iff.mp (Bits.quanta_lt_limit hb)), hb, ?_, ?_⟩
  · intro c _
    have hle := (h.le _ (Bits.onGrid_quanta c)).trans (abs_quanta_le q c)
    rw [hself] at hle
    exact le_of_mul_le_mul_right hle hpos
  · intro c _ hne heq
    rw [← Bits.even_quanta_iff]
    have hle := abs_quanta_le q c
    rw [heq, ← hself] at hle
    have hsame := le_antisymm hle (h.le _ (Bits.onGrid_quanta c))
    refine h.even _ (Bits.onGrid_quanta c) (fun hquanta => hne ?_) hsame
    have habs : |Bits.value c| = |Bits.value b| := by
      rw [Bits.abs_value, Bits.abs_value, hquanta]
    rcases abs_eq_abs.mp habs with hvalue | hvalue
    · exact hvalue
    · have hfactor : 4 * (q * Bits.value b) = (q - Bits.value c) ^ 2 - (q - Bits.value b) ^ 2 := by
        rw [hvalue]
        ring
      rw [(sq_eq_sq_iff_abs_eq_abs _ _).mpr heq, sub_self, mul_eq_zero_iff_left four_ne_zero]
        at hfactor
      have hzero : Bits.value b = 0 := by
        rcases mul_eq_zero.mp hfactor with rfl | hzero
        · rw [abs_zero, zero_mul] at h
          rw [Bits.value_eq, h.eq_zero, Nat.cast_zero, zero_div, mul_zero]
        · exact hzero
      rw [hvalue, hzero, neg_zero]

/-- The quanta of the pattern that a number rounds to are nearest to the number. -/
theorem RoundsTo.isNearest {q : ℚ} {b : UInt64} (h : RoundsTo q b) :
    IsNearest (|q| * 2 ^ 1074) (Bits.quanta b) := by
  have hpos : (0 : ℚ) < 2 ^ 1074 := by positivity
  have hself := abs_quanta_le q b
  have hle : ∀ k, OnGrid k → k < Magnitude.limit →
      |(|q| * 2 ^ 1074 - Bits.quanta b)| ≤ |(|q| * 2 ^ 1074 - k)| := by
    intro k hk hlt
    obtain ⟨c, hc, rfl, hsign⟩ := Bits.exists_pattern_of_sign hk hlt q
    rw [abs_quanta_eq hsign]
    exact hself.trans (mul_le_mul_of_nonneg_right (h.nearest c hc) hpos.le)
  have hlt : ∀ k, Magnitude.limit ≤ k →
      |(|q| * 2 ^ 1074 - Bits.quanta b)| < |(|q| * 2 ^ 1074 - k)| := by
    intro k hk
    exact (hle _ scaled_greatest.onGrid greatest_lt_limit).trans_lt
      (abs_sub_greatest_lt ((abs_lt_iff_quanta q).mp h.bounded) hk)
  refine ⟨Bits.onGrid_quanta b, ?_, ?_⟩
  · intro k hk
    rcases Nat.lt_or_ge k Magnitude.limit with hklt | hkge
    · exact hle k hk hklt
    · exact (hlt k hkge).le
  · intro k hk hne heq
    rcases Nat.lt_or_ge k Magnitude.limit with hklt | hkge
    · obtain ⟨c, hc, rfl, hsign⟩ := Bits.exists_pattern_of_sign hk hklt q
      rw [Bits.even_quanta_iff]
      refine h.even c hc (fun hvalue => hne ?_) (le_antisymm ?_ (h.nearest c hc))
      · exact Bits.quanta_eq_of_value hvalue
      · rw [abs_quanta_eq hsign] at heq
        exact le_of_mul_le_mul_right (heq.trans_le hself) hpos
    · exact absurd heq (hlt k hkge).ne'

end SumScript
