import Mathlib.Algebra.Order.Field.Rat
import Mathlib.Tactic.FieldSimp
import Mathlib.Tactic.GCongr
import Mathlib.Tactic.Linarith
import Mathlib.Tactic.Positivity
import Mathlib.Tactic.Ring
import SumScript.Proofs.Double.Rounding

/-!
# The nearest double

Magnitudes without an upper bound form a grid: the naturals with at most 53 significant
bits.  Every number on it is a *significand* times a power of two, and the significand
has all of its 53 bits unless the power is one (`Scaled`).  The next number on the grid
has the next significand (`Scaled.succ`), so of two that follow each other one is odd.

Rounding is specified here without its algorithm.  `IsNearest q r` compares `r` with
everything on the grid: nothing is nearer to `q`, and what is equally near gives way only
to an even `r`.  This determines `r` (`IsNearest.unique`), and it is the number that
`roundQuanta` computes (`isNearest_iff`).

The grid is dense enough for its numbers to be told apart by midpoints
(`abs_sub_lt_iff`).  So what rounds to a number forms an interval (`IsNearest.between`),
and a number below the limit comes from what lies below the last midpoint
(`IsNearest.lt_limit_iff`).
-/

namespace SumScript

/-! ## The grid -/

/-- The number has at most 53 significant bits. -/
def OnGrid (n : Nat) : Prop := 2 ^ Magnitude.excess n ∣ n

/-- The number has at most 53 significant bits, and the last of them is zero. -/
def EvenOnGrid (n : Nat) : Prop := 2 ^ (Magnitude.excess n + 1) ∣ n

theorem excess_eq_zero {n : Nat} (h : n < 2 ^ 53) : Magnitude.excess n = 0 := by
  rcases Nat.eq_zero_or_pos n with rfl | hpos
  · rfl
  · have hlog : n.log2 < 53 := (Nat.log2_lt (Nat.ne_of_gt hpos)).mpr h
    rw [Magnitude.excess]
    omega

theorem excess_eq {n e : Nat} (hle : 2 ^ (52 + e) ≤ n) (hlt : n < 2 ^ (53 + e)) :
    Magnitude.excess n = e := by
  have hpos : 0 < n := Nat.lt_of_lt_of_le (Nat.two_pow_pos _) hle
  have hlog : n.log2 = 52 + e :=
    (Nat.log2_eq_iff (Nat.ne_of_gt hpos)).mpr ⟨hle, by rwa [Nat.add_right_comm]⟩
  rw [Magnitude.excess, hlog, Nat.add_sub_cancel_left]

/-- `s` is the significand of `s * 2 ^ e`: it has 53 bits, or less if it is not shifted. -/
structure Scaled (s e : Nat) : Prop where
  lt : s < 2 ^ 53
  le : e = 0 ∨ 2 ^ 52 ≤ s

namespace Scaled

variable {s e : Nat} (h : Scaled s e)

include h

theorem excess : Magnitude.excess (s * 2 ^ e) = e := by
  rcases h.le with rfl | hle
  · exact excess_eq_zero (by simpa using h.lt)
  · refine excess_eq ?_ ?_
    · rw [Nat.pow_add]
      exact Nat.mul_le_mul_right _ hle
    · rw [Nat.pow_add]
      exact Nat.mul_lt_mul_of_pos_right h.lt (Nat.two_pow_pos e)

theorem onGrid : OnGrid (s * 2 ^ e) := by
  rw [OnGrid, h.excess]
  exact Nat.dvd_mul_left _ _

theorem even_iff : EvenOnGrid (s * 2 ^ e) ↔ 2 ∣ s := by
  rw [EvenOnGrid, h.excess, Nat.pow_succ', Nat.mul_dvd_mul_iff_right (Nat.two_pow_pos e)]

/-- The next number on the grid.  It may be the carry out of 53 bits. -/
theorem succ : ∃ s' e', Scaled s' e' ∧ (s + 1) * 2 ^ e = s' * 2 ^ e' ∧ (2 ∣ s' ↔ 2 ∣ s + 1) := by
  have hle : s + 1 ≤ 2 ^ 53 := h.lt
  rcases Nat.lt_or_eq_of_le hle with hlt | hcarry
  · exact ⟨s + 1, e, ⟨hlt, h.le.imp_right Nat.le_succ_of_le⟩, rfl, Iff.rfl⟩
  · refine ⟨2 ^ 52, e + 1, ⟨by decide, Or.inr le_rfl⟩, ?_, ?_⟩
    · rw [hcarry, ← Nat.pow_add, ← Nat.pow_add]
      congr 1
      omega
    · rw [hcarry]
      decide

theorem onGrid_succ : OnGrid ((s + 1) * 2 ^ e) := by
  obtain ⟨s', e', h', heq, -⟩ := h.succ
  exact heq ▸ h'.onGrid

theorem even_succ_iff : EvenOnGrid ((s + 1) * 2 ^ e) ↔ 2 ∣ s + 1 := by
  obtain ⟨s', e', h', heq, heven⟩ := h.succ
  rw [heq, h'.even_iff, heven]

/-- Nothing on the grid lies between a number and the next one. -/
theorem gap {k : Nat} (hk : OnGrid k) : k ≤ s * 2 ^ e ∨ (s + 1) * 2 ^ e ≤ k := by
  by_contra hbetween
  obtain ⟨hlo, hhi⟩ : s * 2 ^ e < k ∧ k < (s + 1) * 2 ^ e := by omega
  have hexcess : e ≤ Magnitude.excess k := by
    rcases h.le with rfl | hle
    · exact Nat.zero_le _
    · refine (excess_eq ?_ ?_).ge
      · rw [Nat.pow_add]
        exact (Nat.mul_le_mul_right _ hle).trans hlo.le
      · rw [Nat.pow_add]
        exact hhi.trans_le (Nat.mul_le_mul_right _ h.lt)
  obtain ⟨t, rfl⟩ := (Nat.pow_dvd_pow 2 hexcess).trans hk
  rw [Nat.mul_comm (2 ^ e) t] at hlo hhi
  have hs := Nat.lt_of_mul_lt_mul_right hlo
  have ht := Nat.lt_of_mul_lt_mul_right hhi
  omega

end Scaled

/-- What is left of a quotient on the grid that its size prescribes. -/
theorem scaled_floor (num den : Nat) :
    Scaled (num / (den * 2 ^ Magnitude.excess (num / den))) (Magnitude.excess (num / den)) := by
  have hlt := significand_floor_lt num den
  rw [Nat.shiftLeft_eq, Nat.one_shiftLeft] at hlt
  refine ⟨hlt, ?_⟩
  rcases Nat.eq_zero_or_pos (Magnitude.excess (num / den)) with hzero | hpos
  · exact Or.inl hzero
  · have hle := le_significand_floor hpos
    rw [Nat.one_shiftLeft, Nat.shiftLeft_eq] at hle
    exact Or.inr hle

/-! ## The nearest number on the grid -/

/-- `r` is the number on the grid that is nearest to `q`.  Of two that are equally near it
is the even one. -/
structure IsNearest (q : ℚ) (r : Nat) : Prop where
  onGrid : OnGrid r
  le : ∀ k : Nat, OnGrid k → |q - r| ≤ |q - k|
  even : ∀ k : Nat, OnGrid k → k ≠ r → |q - k| = |q - r| → EvenOnGrid r

/-- The numbers on the grid next to `q`, below and above. -/
structure Neighbours (q : ℚ) (lo hi : Nat) : Prop where
  onGrid_lo : OnGrid lo
  onGrid_hi : OnGrid hi
  lower : (lo : ℚ) ≤ q
  upper : q < hi
  gap : ∀ k : Nat, OnGrid k → k ≤ lo ∨ hi ≤ k
  odd : ¬ (EvenOnGrid lo ∧ EvenOnGrid hi)

namespace Neighbours

variable {q : ℚ} {lo hi : Nat} (h : Neighbours q lo hi)

include h

theorem abs_below {k : Nat} (hk : k ≤ lo) : |q - k| = q - k := by
  have hcast : (k : ℚ) ≤ lo := by exact_mod_cast hk
  exact abs_of_nonneg (by linarith [h.lower])

theorem abs_above {k : Nat} (hk : hi ≤ k) : |q - k| = k - q := by
  have hcast : (hi : ℚ) ≤ k := by exact_mod_cast hk
  rw [abs_sub_comm]
  exact abs_of_nonneg (by linarith [h.upper])

/-- What is on the grid is no nearer than the neighbour on its side. -/
theorem closest {k : Nat} (hk : OnGrid k) :
    (|q - lo| ≤ |q - k| ∧ (|q - k| = |q - lo| → k = lo)) ∨
      (|q - hi| ≤ |q - k| ∧ (|q - k| = |q - hi| → k = hi)) := by
  rcases h.gap k hk with hle | hle
  · have hcast : (k : ℚ) ≤ lo := by exact_mod_cast hle
    rw [h.abs_below hle, h.abs_below le_rfl]
    refine Or.inl ⟨by linarith, fun heq => ?_⟩
    exact_mod_cast (by linarith : (k : ℚ) = lo)
  · have hcast : (hi : ℚ) ≤ k := by exact_mod_cast hle
    rw [h.abs_above hle, h.abs_above le_rfl]
    refine Or.inr ⟨by linarith, fun heq => ?_⟩
    exact_mod_cast (by linarith : (k : ℚ) = hi)

/-- The nearer neighbour is nearest.  Only the other one can be as near. -/
theorem isNearest {r : Nat} (hr : r = lo ∨ r = hi) (hlo : |q - r| ≤ |q - lo|)
    (hhi : |q - r| ≤ |q - hi|) (htie : |q - lo| = |q - hi| → EvenOnGrid r) : IsNearest q r where
  onGrid := by
    rcases hr with rfl | rfl
    · exact h.onGrid_lo
    · exact h.onGrid_hi
  le k hk := by
    rcases h.closest hk with ⟨hle, -⟩ | ⟨hle, -⟩
    · exact hlo.trans hle
    · exact hhi.trans hle
  even k hk hne heq := by
    rcases h.closest hk with ⟨hle, hself⟩ | ⟨hle, hself⟩
    · obtain rfl := hself (le_antisymm (heq.trans_le hlo) hle)
      obtain rfl := hr.resolve_left (Ne.symm hne)
      exact htie heq
    · obtain rfl := hself (le_antisymm (heq.trans_le hhi) hle)
      obtain rfl := hr.resolve_right (Ne.symm hne)
      exact htie heq.symm

theorem eq_or_eq {r : Nat} (hr : IsNearest q r) : r = lo ∨ r = hi := by
  rcases h.closest hr.onGrid with ⟨hle, hself⟩ | ⟨hle, hself⟩
  · exact Or.inl (hself (le_antisymm (hr.le lo h.onGrid_lo) hle))
  · exact Or.inr (hself (le_antisymm (hr.le hi h.onGrid_hi) hle))

/-- Not both neighbours are nearest: they would be equally near and both even. -/
theorem unique {r r' : Nat} (hr : IsNearest q r) (hr' : IsNearest q r') : r = r' := by
  by_contra hne
  have heq : |q - r'| = |q - r| := le_antisymm (hr'.le r hr.onGrid) (hr.le r' hr'.onGrid)
  have heven := hr.even r' hr'.onGrid (Ne.symm hne) heq
  have heven' := hr'.even r hr.onGrid hne heq.symm
  rcases h.eq_or_eq hr with rfl | rfl
  · rcases h.eq_or_eq hr' with rfl | rfl
    · exact hne rfl
    · exact h.odd ⟨heven, heven'⟩
  · rcases h.eq_or_eq hr' with rfl | rfl
    · exact h.odd ⟨heven', heven⟩
    · exact hne rfl

end Neighbours

/-! ## Rounding -/

theorem divNearest_cases (num den : Nat) :
    (divNearest num den = num / den ∧ 2 * (num % den) ≤ den ∧
        (2 * (num % den) = den → 2 ∣ num / den)) ∨
      (divNearest num den = num / den + 1 ∧ den ≤ 2 * (num % den) ∧
        (2 * (num % den) = den → 2 ∣ num / den + 1)) := by
  unfold divNearest
  split
  · exact Or.inl ⟨rfl, by omega, by omega⟩
  · split
    · exact Or.inr ⟨rfl, by omega, by omega⟩
    · rcases Nat.mod_two_eq_zero_or_one (num / den) with hmod | hmod
      · exact Or.inl ⟨by omega, by omega, by omega⟩
      · exact Or.inr ⟨by omega, by omega, by omega⟩

/-- Where a quotient lies between two numbers on the grid, and to which of them it is
rounded. -/
theorem exists_position (num : Nat) {den : Nat} (hden : 0 < den) :
    ∃ (s e : Nat) (t : ℚ), Scaled s e ∧ (num / den : ℚ) = (s + t) * 2 ^ e ∧ 0 ≤ t ∧ t < 1 ∧
      ((roundQuanta num den = s * 2 ^ e ∧ t ≤ 1 / 2 ∧ (t = 1 / 2 → 2 ∣ s)) ∨
        (roundQuanta num den = (s + 1) * 2 ^ e ∧ 1 / 2 ≤ t ∧ (t = 1 / 2 → 2 ∣ s + 1))) := by
  have hscaled := scaled_floor num den
  have hround : roundQuanta num den =
      divNearest num (den * 2 ^ Magnitude.excess (num / den)) *
        2 ^ Magnitude.excess (num / den) := by
    rw [roundQuanta, Nat.shiftLeft_eq, Nat.shiftLeft_eq]
  generalize Magnitude.excess (num / den) = e at hscaled hround
  have hstep : 0 < den * 2 ^ e := Nat.mul_pos hden (Nat.two_pow_pos e)
  have hdiv := Nat.div_add_mod num (den * 2 ^ e)
  have hmod := Nat.mod_lt num hstep
  have hcases := divNearest_cases num (den * 2 ^ e)
  generalize num / (den * 2 ^ e) = s at hscaled hdiv hcases
  generalize num % (den * 2 ^ e) = rem at hdiv hmod hcases
  have hpos : (0 : ℚ) < (den * 2 ^ e : Nat) := by exact_mod_cast hstep
  have hhalf : ((rem : ℚ) / (den * 2 ^ e : Nat) = 1 / 2) ↔ 2 * rem = den * 2 ^ e := by
    rw [div_eq_div_iff hpos.ne' two_ne_zero, one_mul, mul_comm]
    exact_mod_cast Iff.rfl
  refine ⟨s, e, rem / (den * 2 ^ e : Nat), hscaled, ?_, by positivity, ?_, ?_⟩
  · rw [← hdiv]
    push_cast
    field_simp
  · rw [div_lt_one hpos]
    exact_mod_cast hmod
  · rw [hround, hhalf, div_le_div_iff₀ hpos two_pos, div_le_div_iff₀ two_pos hpos, one_mul,
      mul_comm (rem : ℚ)]
    rcases hcases with ⟨hs, hle, htie⟩ | ⟨hs, hle, htie⟩
    · exact Or.inl ⟨by rw [hs], by exact_mod_cast hle, htie⟩
    · exact Or.inr ⟨by rw [hs], by exact_mod_cast hle, htie⟩

theorem Scaled.neighbours {s e : Nat} (h : Scaled s e) {t : ℚ} (hzero : 0 ≤ t) (hone : t < 1) :
    Neighbours ((s + t) * 2 ^ e) (s * 2 ^ e) ((s + 1) * 2 ^ e) where
  onGrid_lo := h.onGrid
  onGrid_hi := h.onGrid_succ
  lower := by
    push_cast
    gcongr
    linarith
  upper := by
    push_cast
    gcongr
  gap _ hk := h.gap hk
  odd heven := by
    rw [h.even_iff, h.even_succ_iff] at heven
    omega

/-- Rounding gives the nearest number on the grid, and no other number is nearest. -/
theorem isNearest_iff (num : Nat) {den : Nat} (hden : 0 < den) {r : Nat} :
    IsNearest (num / den) r ↔ roundQuanta num den = r := by
  obtain ⟨s, e, t, hscaled, hq, hzero, hone, hround⟩ := exists_position num hden
  rw [hq]
  have hstep : (0 : ℚ) < 2 ^ e := by positivity
  have hneighbours := hscaled.neighbours hzero hone
  have hbelow : |(s + t) * 2 ^ e - (s * 2 ^ e : Nat)| = t * 2 ^ e := by
    rw [hneighbours.abs_below le_rfl]
    push_cast
    ring
  have habove : |(s + t) * 2 ^ e - ((s + 1) * 2 ^ e : Nat)| = (1 - t) * 2 ^ e := by
    rw [hneighbours.abs_above le_rfl]
    push_cast
    ring
  have hnearest : IsNearest ((s + t) * 2 ^ e) (roundQuanta num den) := by
    rcases hround with ⟨hr, hhalf, htie⟩ | ⟨hr, hhalf, htie⟩
    · rw [hr]
      refine hneighbours.isNearest (Or.inl rfl) le_rfl ?_ ?_
      · rw [hbelow, habove]
        gcongr
        linarith
      · rw [hbelow, habove, hscaled.even_iff]
        exact fun heq => htie (by linarith [mul_right_cancel₀ hstep.ne' heq])
    · rw [hr]
      refine hneighbours.isNearest (Or.inr rfl) ?_ le_rfl ?_
      · rw [hbelow, habove]
        gcongr
        linarith
      · rw [hbelow, habove, hscaled.even_succ_iff]
        exact fun heq => htie (by linarith [mul_right_cancel₀ hstep.ne' heq])
  constructor
  · exact fun hr => hneighbours.unique hnearest hr
  · rintro rfl
    exact hnearest

theorem IsNearest.unique {q : ℚ} (hq : 0 ≤ q) {r r' : Nat} (h : IsNearest q r)
    (h' : IsNearest q r') : r = r' := by
  have hcast : (q.num.toNat : ℚ) / q.den = q := by
    rw [← Int.cast_natCast, Int.toNat_of_nonneg (Rat.num_nonneg.mpr hq), Rat.num_div_den]
  rw [← hcast, isNearest_iff _ q.den_pos] at h h'
  exact h.symm.trans h'

/-! ## Midpoints -/

section

variable {a b : ℚ} (h : a < b) (q : ℚ)

include h

/-- Which of two numbers is nearer is decided at their midpoint. -/
theorem abs_sub_lt_iff : |q - a| < |q - b| ↔ 2 * q < a + b := by
  have hfactor : (q - b) ^ 2 - (q - a) ^ 2 = (b - a) * (a + b - 2 * q) := by ring
  rw [← sq_lt_sq, ← sub_pos, hfactor, mul_pos_iff_of_pos_left (sub_pos.mpr h), sub_pos]

theorem abs_sub_eq_iff : |q - a| = |q - b| ↔ 2 * q = a + b := by
  have hfactor : (q - b) ^ 2 - (q - a) ^ 2 = (b - a) * (a + b - 2 * q) := by ring
  rw [← sq_eq_sq_iff_abs_eq_abs, eq_comm, ← sub_eq_zero, hfactor, mul_eq_zero_iff_left
    (sub_pos.mpr h).ne', sub_eq_zero, eq_comm]

theorem abs_sub_le_iff_below : |q - a| ≤ |q - b| ↔ 2 * q ≤ a + b := by
  rw [le_iff_lt_or_eq, abs_sub_lt_iff h, abs_sub_eq_iff h, ← le_iff_lt_or_eq]

theorem abs_sub_le_iff_above : |q - b| ≤ |q - a| ↔ a + b ≤ 2 * q := by
  rw [← not_lt, abs_sub_lt_iff h, not_lt]

end

/-- What rounds to a number is an interval.  A number below it is no nearer to `q` than to the
left end, and one above it no nearer than to the right end. -/
theorem IsNearest.between {q₁ q q₂ : ℚ} {r : Nat} (h₁ : IsNearest q₁ r) (h₂ : IsNearest q₂ r)
    (hle₁ : q₁ ≤ q) (hle₂ : q ≤ q₂) : IsNearest q r where
  onGrid := h₁.onGrid
  le k hk := by
    rcases lt_trichotomy k r with hlt | rfl | hgt
    · have hcast : (k : ℚ) < r := by exact_mod_cast hlt
      have hleft := h₁.le k hk
      rw [abs_sub_le_iff_above hcast] at hleft ⊢
      linarith
    · exact le_rfl
    · have hcast : (r : ℚ) < k := by exact_mod_cast hgt
      have hright := h₂.le k hk
      rw [abs_sub_le_iff_below hcast] at hright ⊢
      linarith
  even k hk hne heq := by
    rcases lt_or_gt_of_ne hne with hlt | hgt
    · have hcast : (k : ℚ) < r := by exact_mod_cast hlt
      have hleft := h₁.le k hk
      rw [abs_sub_le_iff_above hcast] at hleft
      rw [abs_sub_eq_iff hcast] at heq
      exact h₁.even k hk hne ((abs_sub_eq_iff hcast q₁).mpr (by linarith))
    · have hcast : (r : ℚ) < k := by exact_mod_cast hgt
      have hright := h₂.le k hk
      rw [abs_sub_le_iff_below hcast] at hright
      rw [eq_comm, abs_sub_eq_iff hcast] at heq
      exact h₂.even k hk hne ((abs_sub_eq_iff hcast q₂).mpr (by linarith)).symm

theorem onGrid_zero : OnGrid 0 := Nat.dvd_zero _

theorem IsNearest.eq_zero {r : Nat} (h : IsNearest 0 r) : r = 0 := by
  have hle := h.le 0 onGrid_zero
  rw [Nat.cast_zero, sub_zero, abs_zero, zero_sub, abs_neg, abs_nonpos_iff] at hle
  exact_mod_cast hle

/-! ## The limit -/

/-- The greatest magnitude. -/
def Magnitude.greatest : Nat := (2 ^ 53 - 1) * 2 ^ 2045

theorem scaled_greatest : Scaled (2 ^ 53 - 1) 2045 := ⟨by decide, Or.inr (by decide)⟩

theorem limit_eq_mul {i j : Nat} (h : i + j = 2098) : Magnitude.limit = 2 ^ i * 2 ^ j := by
  rw [Magnitude.limit, Nat.one_shiftLeft, ← Nat.pow_add, h]

/-- The limit comes next on the grid. -/
theorem limit_eq : Magnitude.limit = (2 ^ 53 - 1 + 1) * 2 ^ 2045 := by
  rw [Nat.sub_add_cancel (by decide)]
  exact limit_eq_mul rfl

theorem greatest_lt_limit : Magnitude.greatest < Magnitude.limit := by
  rw [limit_eq, Magnitude.greatest]
  generalize 2045 = k
  exact Nat.mul_lt_mul_of_pos_right (Nat.lt_succ_self _) (Nat.two_pow_pos k)

/-- Half way between the greatest magnitude and the limit. -/
theorem greatest_add_limit :
    (Magnitude.greatest : ℚ) + Magnitude.limit = 2 * (2 ^ 2098 - 2 ^ 2044) := by
  have hhigh : (2 : ℚ) ^ 2098 = 2 ^ 54 * 2 ^ 2044 := pow_add 2 54 2044
  have hlow : (2 : ℚ) ^ 2045 = 2 * 2 ^ 2044 := pow_succ' 2 2044
  rw [limit_eq, Magnitude.greatest, hhigh, Nat.cast_mul, Nat.cast_mul, Nat.cast_pow _ 2045,
    Nat.cast_ofNat, hlow]
  generalize (2 : ℚ) ^ 2044 = x
  norm_num
  ring

theorem le_greatest_of_lt_limit {n : Nat} (hn : OnGrid n) (h : n < Magnitude.limit) :
    n ≤ Magnitude.greatest := by
  rcases scaled_greatest.gap hn with hle | hle
  · exact hle
  · rw [limit_eq] at h
    exact absurd h (Nat.not_lt.mpr hle)

/-- Below the last midpoint the greatest magnitude is nearer than all that is not below the
limit. -/
theorem abs_sub_greatest_lt {q : ℚ} (hq : q < 2 ^ 2098 - 2 ^ 2044) {k : Nat}
    (hk : Magnitude.limit ≤ k) : |q - Magnitude.greatest| < |q - k| := by
  have hmiddle := greatest_add_limit
  generalize (2 : ℚ) ^ 2098 - 2 ^ 2044 = middle at hmiddle hq
  have hcast : (Magnitude.limit : ℚ) ≤ k := by exact_mod_cast hk
  have hlt : (Magnitude.greatest : ℚ) < Magnitude.limit := by exact_mod_cast greatest_lt_limit
  exact (abs_sub_lt_iff (by linarith) q).mpr (by linarith)

/-- What is rounded to a magnitude below the limit lies below the last midpoint.  The
midpoint itself is rounded up, because the greatest magnitude is odd. -/
theorem IsNearest.lt_limit_iff {q : ℚ} {r : Nat} (h : IsNearest q r) :
    r < Magnitude.limit ↔ q < 2 ^ 2098 - 2 ^ 2044 := by
  have hlimit : OnGrid Magnitude.limit := limit_eq ▸ scaled_greatest.onGrid_succ
  have hodd : ¬ EvenOnGrid Magnitude.greatest := by
    rw [Magnitude.greatest, scaled_greatest.even_iff]
    decide
  constructor
  · intro hlt
    have hmiddle := greatest_add_limit
    generalize (2 : ℚ) ^ 2098 - 2 ^ 2044 = middle at hmiddle ⊢
    have hgreatest : (r : ℚ) ≤ Magnitude.greatest := by
      exact_mod_cast le_greatest_of_lt_limit h.onGrid hlt
    have hcast : (r : ℚ) < Magnitude.limit := by exact_mod_cast hlt
    have hle := (abs_sub_le_iff_below hcast q).mp (h.le _ hlimit)
    refine lt_of_le_of_ne (by linarith) fun heq => hodd ?_
    have hr : r = Magnitude.greatest := by
      exact_mod_cast (by linarith : (r : ℚ) = Magnitude.greatest)
    have htie : |q - Magnitude.limit| = |q - r| :=
      ((abs_sub_eq_iff hcast q).mpr (by rw [hr]; linarith)).symm
    exact hr ▸ h.even _ hlimit (Nat.ne_of_gt hlt) htie
  · intro hq
    by_contra hge
    have hlt := abs_sub_greatest_lt hq (Nat.not_lt.mp hge)
    exact absurd (h.le _ scaled_greatest.onGrid) (not_le.mpr hlt)

end SumScript
