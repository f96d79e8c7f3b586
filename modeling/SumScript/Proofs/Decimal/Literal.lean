import Mathlib.Data.Nat.Digits.Defs
import SumScript.NumberSystem
import SumScript.Proofs.Double.Bits
import SumScript.Proofs.Token.Layout

/-!
# What literals denote

A literal is a run of digits of any length.  It denotes a natural number
(`digitsValue`), and as a double the pattern that this number rounds to
(`Double.ofNat_correctlyRounded`).  Whether the number is too large is decided half way
between the greatest double and the next power of two, and no literal denotes a negative
zero or what is not a number.
-/

namespace SumScript

/-! ## Digits -/

/-- The number that a run of digits denotes. -/
def digitsValue (word : List Char) : Nat :=
  Nat.ofDigits 10 (word.reverse.map fun c => c.toNat - '0'.toNat)

theorem ofDigitChars_eq (word : List Char) : Nat.ofDigitChars 10 word 0 = digitsValue word := by
  induction word using List.reverseRecOn with
  | nil => rfl
  | append_singleton word c ih =>
      rw [Nat.ofDigitChars_append, ih, Nat.ofDigitChars_cons, Nat.ofDigitChars_nil, digitsValue,
        digitsValue, List.reverse_append, List.reverse_singleton, List.singleton_append,
        List.map_cons, Nat.ofDigits_cons, Nat.add_comm]

theorem literalValue?_eq_some_iff {text : String} {n : Nat} :
    literalValue? text = some n ↔ IsNumeral text.toList ∧ n = digitsValue text.toList := by
  have hdigits : (text.toList ≠ [] ∧ text.toList.all Char.isDigit) ↔ IsNumeral text.toList :=
    and_congr_right fun _ => List.all_eq_true
  by_cases h : IsNumeral text.toList
  · rw [literalValue?, if_pos (hdigits.mpr h), ofDigitChars_eq, Option.some.injEq, and_iff_right h,
      eq_comm]
  · rw [literalValue?, if_neg (mt hdigits.mp h)]
    exact iff_of_false nofun fun hn => h hn.1

theorem literal?_eq_some_iff {text : String} {x : Double} :
    literal? Double text = some x ↔
      IsNumeral text.toList ∧ x = Double.ofNat (digitsValue text.toList) := by
  rw [literal?, Option.map_eq_some_iff]
  constructor
  · rintro ⟨n, hn, rfl⟩
    obtain ⟨hnumeral, rfl⟩ := literalValue?_eq_some_iff.mp hn
    exact ⟨hnumeral, rfl⟩
  · rintro ⟨hnumeral, rfl⟩
    exact ⟨_, literalValue?_eq_some_iff.mpr ⟨hnumeral, rfl⟩, rfl⟩

/-! ## Natural numbers as doubles -/

theorem isNearest_ofNat (n : Nat) :
    IsNearest (|(n : ℚ)| * 2 ^ 1074) (roundQuanta (n * Magnitude.one) 1) := by
  have hquanta : ((n * Magnitude.one : Nat) : ℚ) / (1 : Nat) = |(n : ℚ)| * 2 ^ 1074 := by
    rw [Nat.cast_mul, Magnitude.cast_one, Nat.cast_one, div_one, Nat.abs_cast]
  rw [← hquanta]
  exact (isNearest_iff _ Nat.one_pos).mpr rfl

/-- A natural number is rounded to a magnitude, or it is too large and becomes an
infinity. -/
theorem Double.ofNat_bounded (n : Nat) :
    ((n : ℚ) < 2 ^ 1024 - 2 ^ 970 ∧
        ∃ m, Double.ofNat n = .finite false m ∧ m.quanta = roundQuanta (n * Magnitude.one) 1) ∨
      (2 ^ 1024 - 2 ^ 970 ≤ (n : ℚ) ∧ Double.ofNat n = .infinite false) := by
  have hbound : (n : ℚ) < 2 ^ 1024 - 2 ^ 970 ↔
      roundQuanta (n * Magnitude.one) 1 < Magnitude.limit := by
    rw [(isNearest_ofNat n).lt_limit_iff, ← abs_lt_iff_quanta, Nat.abs_cast]
  rw [Double.ofNat, Double.nearest, ← not_lt, hbound]
  split
  next hlt => exact Or.inl ⟨hlt, _, rfl, rfl⟩
  next hge => exact Or.inr ⟨hge, rfl⟩

/-- The bits of the double that a natural number is rounded to. -/
structure CorrectlyRounded (n : Nat) (b : UInt64) : Prop where
  unsigned : Bits.sign b = 0
  number : ¬ Bits.IsNaN b
  infinite_iff : b = 0x7ff0000000000000 ↔ 2 ^ 1024 - 2 ^ 970 ≤ (n : ℚ)
  roundsTo : (n : ℚ) < 2 ^ 1024 - 2 ^ 970 → RoundsTo n b

theorem Double.ofNat_correctlyRounded (n : Nat) : CorrectlyRounded n (Double.ofNat n).toBits := by
  rcases Double.ofNat_bounded n with ⟨hlt, m, heq, hm⟩ | ⟨hle, heq⟩
  · rw [heq]
    obtain ⟨hfinite, hsign, hquanta⟩ := Bits.toBits_finite false m
    refine ⟨hsign, fun hnan => hfinite.ne hnan.1, iff_of_false ?_ (not_le.mpr hlt), fun _ => ?_⟩
    · intro hbits
      rw [hbits] at hfinite
      exact absurd hfinite (by decide)
    · have hnearest := isNearest_ofNat n
      rw [← hm, ← hquanta] at hnearest
      refine hnearest.roundsTo hfinite ?_
      rw [Bits.value_of_unsigned hsign]
      positivity
  · rw [heq]
    exact ⟨by decide, by decide, iff_of_true rfl hle, fun hlt => absurd hle (not_le.mpr hlt)⟩

/-- Rounding keeps the order. -/
theorem Double.ofNat_mono {i n : Nat} (h : i ≤ n) :
    (Double.ofNat n).toBits = 0x7ff0000000000000 ∨
      Bits.value (Double.ofNat i).toBits ≤ Bits.value (Double.ofNat n).toBits := by
  rcases Double.ofNat_bounded n with ⟨hlt, m, heq, hm⟩ | ⟨-, heq⟩
  · rcases Double.ofNat_bounded i with ⟨-, m', heq', hm'⟩ | ⟨hle, -⟩
    · obtain ⟨-, hsign, hquanta⟩ := Bits.toBits_finite false m
      obtain ⟨-, hsign', hquanta'⟩ := Bits.toBits_finite false m'
      rw [heq, heq', Bits.value_of_unsigned hsign, Bits.value_of_unsigned hsign', hquanta, hquanta',
        hm, hm']
      have hround := roundQuanta_mono (Nat.mul_le_mul_right Magnitude.one h) 1
      exact Or.inr (by gcongr)
    · have hcast : (i : ℚ) ≤ n := by exact_mod_cast h
      exact absurd (hle.trans hcast) (not_le.mpr hlt)
  · rw [heq]
    exact Or.inl rfl

/-! ## Literals -/

/-- Just the runs of digits are literals.  What one denotes is the double nearest to the
number that its digits denote, and it grows with this number. -/
theorem literal?_correctlyRounded (text : String) :
    ((literal? Double text).isSome ↔ IsNumeral text.toList) ∧
      ∀ x, literal? Double text = some x →
        CorrectlyRounded (digitsValue text.toList) x.toBits ∧
          ∀ text' x', literal? Double text' = some x' →
            (digitsValue text.toList = digitsValue text'.toList → x = x') ∧
              (digitsValue text.toList ≤ digitsValue text'.toList →
                x'.toBits = 0x7ff0000000000000 ∨
                  Bits.value x.toBits ≤ Bits.value x'.toBits) := by
  constructor
  · rw [Option.isSome_iff_exists]
    constructor
    · rintro ⟨x, hx⟩
      exact (literal?_eq_some_iff.mp hx).1
    · intro hnumeral
      exact ⟨_, literal?_eq_some_iff.mpr ⟨hnumeral, rfl⟩⟩
  · intro x hx
    obtain ⟨-, rfl⟩ := literal?_eq_some_iff.mp hx
    refine ⟨Double.ofNat_correctlyRounded _, ?_⟩
    intro text' x' hx'
    obtain ⟨-, rfl⟩ := literal?_eq_some_iff.mp hx'
    exact ⟨congrArg Double.ofNat, Double.ofNat_mono⟩

/-- The first natural number that is no double lies half way between two doubles, and the
even one of them is a power of two. -/
theorem literal?_halfWay :
    literal? Double "09007199254740993" = some (.ofNat 9007199254740992) ∧
      (Double.ofNat 9007199254740992).toBits = 0x4340000000000000 ∧
      RoundsTo 9007199254740993 0x4340000000000000 := by
  have hread : literal? Double "09007199254740993" = some (.ofNat 9007199254740992) := by
    decide +kernel
  have hbits : (Double.ofNat 9007199254740992).toBits = 0x4340000000000000 := by decide +kernel
  have hvalue : digitsValue "09007199254740993".toList = 9007199254740993 := by decide +kernel
  have hrounded := ((literal?_correctlyRounded "09007199254740993").2 _ hread).1
  rw [hbits, hvalue] at hrounded
  have hlt : ((9007199254740993 : Nat) : ℚ) < 2 ^ 1024 - 2 ^ 970 :=
    not_le.mp (mt hrounded.infinite_iff.mpr (by decide))
  exact ⟨hread, hbits, by exact_mod_cast hrounded.roundsTo hlt⟩

end SumScript
