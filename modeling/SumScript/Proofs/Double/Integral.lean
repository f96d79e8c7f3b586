import SumScript.Double.Arithmetic
import SumScript.Proofs.Double.Rounding

/-!
# Integral doubles

A double is *integral* if it has no fraction and is no negative zero.  Infinities and
what is not a number count as integral: they have no fraction either.

Sums and differences of integral doubles are integral.  Whole numbers are multiples of
a power of two in quanta, and rounding keeps multiples of powers of two
(`Double.IsWhole.add`).  A sum is a negative zero only if both of its operands are
(`Double.add_ne_negativeZero`), and it is enough to know this of the first one: the
difference `x - 0` adds a negative zero to `x`.
-/

namespace SumScript

/-! ## Rounding does not lose a number -/

theorem representable_one : Representable 1 := by
  have h := representable_shiftLeft (m := 1) (k := 0) (by decide)
  exact h (Nat.lt_of_lt_of_le (by decide) (Magnitude.shiftLeft_le_limit (Nat.le_refl 2098)))

theorem roundQuanta_pos {n : Nat} (h : 0 < n) : 0 < roundQuanta n 1 := by
  calc 0 < 1 := Nat.one_pos
    _ = roundQuanta 1 1 := (roundQuanta_of_representable representable_one).symm
    _ ≤ roundQuanta n 1 := roundQuanta_mono h 1

/-! ## Whole doubles -/

/-- The double has no fraction.  Infinities and what is not a number have none. -/
def Double.IsWhole : Double → Prop
  | .finite _ m => m.IsWhole
  | _ => True

/-- The negative zero. -/
def Double.negativeZero : Double := .finite true .zero

theorem Double.dvd_signed {m : Magnitude} (h : m.IsWhole) (negative : Bool) :
    (Magnitude.one : Int) ∣ Double.signed negative m := by
  have hquanta : (Magnitude.one : Int) ∣ m.quanta := Int.natCast_dvd_natCast.mpr h
  cases negative with
  | true => exact (Int.dvd_neg).mpr hquanta
  | false => exact hquanta

theorem Double.isWhole_ofQuanta {quanta : Int} (h : (Magnitude.one : Int) ∣ quanta)
    (negative : Bool) : (Double.ofQuanta negative quanta).IsWhole := by
  unfold Double.ofQuanta Double.nearest
  split
  next => exact Nat.dvd_zero _
  next =>
    split
    next => exact shift_dvd_roundQuanta (Int.ofNat_dvd_left.mp h)
    next => trivial

theorem Double.IsWhole.add {x y : Double} (hx : x.IsWhole) (hy : y.IsWhole) :
    (x.add y).IsWhole := by
  cases x with
  | nan => trivial
  | infinite a =>
      cases y with
      | nan => trivial
      | infinite b =>
          rw [Double.add]
          split
          · trivial
          · trivial
      | finite b n => trivial
  | finite a m =>
      cases y with
      | nan => trivial
      | infinite b => trivial
      | finite b n =>
          exact Double.isWhole_ofQuanta (Int.dvd_add (Double.dvd_signed hx a)
            (Double.dvd_signed hy b)) _

theorem Double.IsWhole.neg {x : Double} (h : x.IsWhole) : x.neg.IsWhole := by
  cases x with
  | nan => trivial
  | infinite => trivial
  | finite => exact h

/-! ## Negative zeros -/

/-- What is not zero is not rounded to zero. -/
theorem Double.ofQuanta_ne_negativeZero {quanta : Int} {negative : Bool}
    (h : quanta = 0 → negative = false) :
    Double.ofQuanta negative quanta ≠ .negativeZero := by
  unfold Double.ofQuanta Double.nearest Double.negativeZero
  split
  next hzero =>
    rw [h hzero]
    intro heq
    cases heq
  next hne =>
    split
    next =>
      intro heq
      have hround : roundQuanta quanta.natAbs 1 = 0 :=
        congrArg Magnitude.quanta (Double.finite.inj heq).2
      have hpos := roundQuanta_pos (Int.natAbs_pos.mpr hne)
      omega
    next =>
      intro heq
      cases heq

/-- A sum is a negative zero only if its first part is one.  Two negative numbers add up to
zero only if both are. -/
theorem Double.add_ne_negativeZero {x : Double} (h : x ≠ .negativeZero) (y : Double) :
    x.add y ≠ .negativeZero := by
  cases x with
  | nan => exact nofun
  | infinite a =>
      cases y with
      | nan => exact nofun
      | infinite b =>
          rw [Double.add]
          split
          · exact nofun
          · exact nofun
      | finite b n => exact nofun
  | finite a m =>
      cases y with
      | nan => exact nofun
      | infinite b => exact nofun
      | finite b n =>
          refine Double.ofQuanta_ne_negativeZero fun hzero => ?_
          cases a with
          | false => rfl
          | true =>
              cases b with
              | false => rfl
              | true =>
                  simp only [Double.signed, if_true] at hzero
                  have hm : m.quanta = Magnitude.zero.quanta := by
                    change m.quanta = 0
                    omega
                  exact absurd (congrArg (Double.finite true) (Magnitude.eq_of_quanta hm)) h

/-! ## Integral doubles -/

/-- A whole number, an infinity or not a number, but no negative zero. -/
structure Double.Integral (x : Double) : Prop where
  whole : x.IsWhole
  unsigned : x ≠ .negativeZero

theorem Double.integral_ofNat (n : Nat) : (Double.ofNat n).Integral := by
  rcases Double.ofNat_cases n with h | ⟨m, h, hwhole⟩
  · rw [h]
    exact ⟨trivial, nofun⟩
  · rw [h]
    exact ⟨hwhole, nofun⟩

section

variable {x y : Double}

theorem Double.Integral.add (hx : x.Integral) (hy : y.Integral) : (x.add y).Integral :=
  ⟨hx.whole.add hy.whole, Double.add_ne_negativeZero hx.unsigned y⟩

theorem Double.Integral.sub (hx : x.Integral) (hy : y.Integral) : (x.sub y).Integral :=
  ⟨hx.whole.add hy.whole.neg, Double.add_ne_negativeZero hx.unsigned y.neg⟩

end

end SumScript
