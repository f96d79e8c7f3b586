import SumScript.Double.Basic

/-!
# Bit patterns of doubles

The 64 bits of a double are a sign bit, eleven bits of exponent and 52 bits of
fraction.  The exponent field `0` holds the magnitudes of less than 53 bits as
they are.  A field `e` from `1` to `2046` puts a leading one before the fraction
and shifts both by `e - 1`.  The last field, `2047`, is for infinities and for
all that is not a number.
-/

namespace SumScript

/-- The quanta of a finite double with the given exponent and fraction fields. -/
def Double.quantaOfFields (exponent fraction : Nat) : Nat :=
  if exponent = 0 then fraction else (1 <<< 52 + fraction) <<< (exponent - 1)

theorem Double.representable_quantaOfFields {exponent fraction : Nat}
    (he : exponent < 2047) (hf : fraction < 1 <<< 52) :
    Representable (quantaOfFields exponent fraction) := by
  unfold quantaOfFields
  split
  · have h := representable_shiftLeft (m := fraction) (k := 0)
    rw [Nat.shiftLeft_zero] at h
    refine h (Nat.le_of_lt (Nat.lt_trans hf (by decide))) ?_
    exact Nat.lt_of_lt_of_le hf (Magnitude.shiftLeft_le_limit (by decide))
  · have hm : 1 <<< 52 + fraction < 1 <<< 53 := by
      rw [Nat.one_shiftLeft] at hf ⊢
      omega
    refine representable_shiftLeft (Nat.le_of_lt hm) ?_
    have hle : 1 <<< 53 <<< (exponent - 1) ≤ Magnitude.limit := by
      rw [← Nat.shiftLeft_add]
      exact Magnitude.shiftLeft_le_limit (by omega)
    refine Nat.lt_of_lt_of_le ?_ hle
    rw [Nat.shiftLeft_eq, Nat.shiftLeft_eq _ (exponent - 1)]
    exact Nat.mul_lt_mul_of_pos_right hm (Nat.two_pow_pos _)

/-- The double with the given bits. -/
def Double.ofBits (bits : UInt64) : Double :=
  let negative := decide (1 <<< 63 ≤ bits.toNat)
  let exponent := (bits.toNat >>> 52) % 2048
  let fraction := bits.toNat % 1 <<< 52
  if h : exponent < 2047 then
    .finite negative ⟨quantaOfFields exponent fraction,
      representable_quantaOfFields h (Nat.mod_lt _ (by decide))⟩
  else if fraction = 0 then .infinite negative
  else .nan

/-- The bits of a magnitude.  A significand of 53 bits carries into the exponent
field, so its leading one counts the field up by one. -/
def Magnitude.bits (m : Magnitude) : Nat :=
  excess m.quanta <<< 52 + m.quanta >>> excess m.quanta

/-- The bits of a double.  Of the patterns that are not a number it is the one
with the first fraction bit set. -/
def Double.toBits : Double → UInt64
  | .nan => 0x7ff8000000000000
  | .infinite negative => if negative then 0xfff0000000000000 else 0x7ff0000000000000
  | .finite negative m => .ofNat ((if negative then 1 <<< 63 else 0) + m.bits)

end SumScript
