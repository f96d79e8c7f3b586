import SumScript.Decimal.Shortest

/-!
# Writing doubles

Programs print numbers in one style and the log shows them in another.  Both
write the shortest decimal; a `NumberStyle` holds what they decide differently:
which numbers are written positionally, what follows a whole number, and
whether a zero shows its sign.
-/

namespace SumScript

/-- The decisions that a way of writing doubles makes. -/
structure NumberStyle where
  /-- Whether numbers from `10 ^ (p - 1)` up to `10 ^ p` are written
  positionally. -/
  isPositional : Int → Bool
  /-- What a whole number in positional writing ends with. -/
  wholeEnd : List Char
  /-- Whether a negative zero has a sign. -/
  signedZero : Bool

/-- The style of printed lines: always positional, whole numbers without a point,
zeros without a sign. -/
def NumberStyle.printed : NumberStyle :=
  ⟨fun _ => true, [], false⟩

/-- The style of the log: positional from `10 ^ -4` to below `10 ^ 16`, and there
with at least one digit after the point. -/
def NumberStyle.logged : NumberStyle :=
  ⟨fun p => decide (-3 ≤ p ∧ p ≤ 16), ['.', '0'], true⟩

/-- A positive decimal in the given style. -/
def NumberStyle.write (style : NumberStyle) (d : Decimal) : List Char :=
  if style.isPositional d.magnitude then
    d.positional ++ (if d.isWhole then style.wholeEnd else [])
  else d.scientific

/-- The sign of a number, as written before its digits. -/
def signMark (negative : Bool) : List Char := if negative then ['-'] else []

/-- A double in the given style. -/
def Double.write (style : NumberStyle) : Double → List Char
  | .nan => ['N', 'a', 'N']
  | .infinite negative => signMark negative ++ ['i', 'n', 'f']
  | .finite negative m =>
      if m.quanta = 0 then
        signMark (negative && style.signedZero) ++ '0' :: style.wholeEnd
      else signMark negative ++ style.write (.shortest m.quanta)

/-- A double the way `print` shows it. -/
def Double.text (x : Double) : String := .ofList (x.write .printed)

/-- A double the way the log shows it. -/
def Double.logText (x : Double) : String := .ofList (x.write .logged)

/-! ## Examples -/

example : (Double.ofNat 42).text = "42" := by decide +kernel

example : (Double.ofNat 42).logText = "42.0" := by decide +kernel

example : (Double.ofNat 12300000000000000000).text = "12300000000000000000" := by decide +kernel

example : (Double.ofNat 12300000000000000000).logText = "1.23e19" := by decide +kernel

/-- Digits beyond those that are needed are zeros. -/
example : (Double.ofNat 1152921504606846976).text = "1152921504606847000" := by decide +kernel

/-- The exact value ends in `3125`, half way between two decimals that both read
back. -/
example : (Double.nearest false Magnitude.one (1 <<< 25)).text =
    "0.000000029802322387695313" := by decide +kernel

/-- The least positive double has one digit. -/
example : (Decimal.shortest 1) = ⟨5, -324⟩ := by decide +kernel

end SumScript
