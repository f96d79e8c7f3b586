import SumScript.Proofs.Context.Values
import SumScript.Proofs.Double.Integral
import SumScript.Proofs.Program.Source

/-!
# Texts compute with integers

All numbers that the run of a text meets are integral.  Literals are
(`Double.integral_ofNat`), and operations keep it so (`closed_integral`); the rest
holds of every property that operations keep.  Hence the lines of a text have no
point, no sign before a zero and no zero in front (`Double.Integral.text`).
-/

namespace SumScript

theorem closed_integral : Closed Double.Integral := by
  intro op x y hx hy
  cases op with
  | add => exact hx.add hy
  | sub => exact hx.sub hy

/-! ## Lines -/

/-- Digits without a zero in front. -/
def IsPlainNumeral (word : List Char) : Prop := IsNumeral word ∧ word.head? ≠ some '0'

/-- The lines that integral doubles are printed as. -/
inductive IntegralLine : String → Prop where
  | zero : IntegralLine "0"
  | positive {word : List Char} : IsPlainNumeral word → IntegralLine (.ofList word)
  | negative {word : List Char} : IsPlainNumeral word → IntegralLine (.ofList ('-' :: word))
  | infinity : IntegralLine "inf"
  | negativeInfinity : IntegralLine "-inf"
  | notNumber : IntegralLine "NaN"

theorem isPlainNumeral_numeral {c : Nat} (h : 0 < c) (e : Nat) : IsPlainNumeral (numeral c e) := by
  refine ⟨⟨numeral_ne_nil c e, fun d hd => isDigit_of_mem_numeral hd⟩, ?_⟩
  rw [numeral, List.head?_append_of_ne_nil _ Nat.toDigits_ne_nil]
  exact head?_toDigits h

theorem Double.Integral.text {x : Double} (h : x.Integral) : IntegralLine x.text := by
  cases x with
  | nan => exact .notNumber
  | infinite negative =>
      cases negative with
      | true => exact .negativeInfinity
      | false => exact .infinity
  | finite negative m =>
      by_cases hzero : m.quanta = 0
      · rw [Double.text_zero hzero]
        exact .zero
      · obtain ⟨c, e, htext, hround, -⟩ := Double.exists_text h.whole hzero negative
        have hc : 0 < c := by
          refine Nat.pos_of_ne_zero ?_
          rintro rfl
          rw [Nat.zero_mul, Nat.zero_mul, roundQuanta_of_representable representable_zero] at hround
          exact hzero hround.symm
        rw [htext]
        cases negative with
        | true => exact .negative (isPlainNumeral_numeral hc e)
        | false => exact .positive (isPlainNumeral_numeral hc e)

/-! ## Texts -/

/-- Whatever a text computes is integral: the variables at every point of its run, the
value of every expression that is evaluated, and the lines. -/
theorem execute_integral {source : String} {p : Program Double}
    (hp : Program.ofSource source = .ok p) :
    (∀ k name value, (Context.empty.run (p.take k)).1.env.get? name = some value →
        value.Integral) ∧
      (∀ value ∈ Context.empty.valuesMet p, value.Integral) ∧
      ∀ line ∈ (execute source).lines, IntegralLine line := by
  have hnumbers : ∀ s ∈ p, ∀ x ∈ s.value.numbers, x.Integral := by
    intro s hs x hx
    obtain ⟨n, rfl⟩ := (Program.canonical_of_ofSource hp s hs).numbers x hx
    exact Double.integral_ofNat n
  obtain ⟨hend, hmet⟩ := Context.All.empty.run closed_integral hnumbers
  refine ⟨?_, hmet, ?_⟩
  · intro k name value hvalue
    have htake := Context.All.empty.run closed_integral
      fun s (hs : s ∈ p.take k) => hnumbers s (List.mem_of_mem_take hs)
    exact htake.1.env name value hvalue
  · intro line hline
    have hprinted : line ∈ (Context.empty.run p).1.printed := by
      simp only [execute, executeOver, Context.runSource, hp] at hline
      exact List.mem_reverse.mp hline
    obtain ⟨value, hvalue, rfl⟩ := hend.printed line hprinted
    exact hvalue.text

/-- A text with a literal that is rounded, zeros on the right of differences, and a name
that does not exist at its end. -/
def roundedSource : String := "new a=9007199254740993;print(0-a-0);print(a-a);print(0-0+c);"

/-- The program of the text. -/
def roundedProgram : Program Double :=
  [.declare "a" (.number (.ofNat 9007199254740993)),
    .print (.binary .sub (.binary .sub (.number (.ofNat 0)) (.var "a")) (.number (.ofNat 0))),
    .print (.binary .sub (.var "a") (.var "a")),
    .print (.binary .add (.binary .sub (.number (.ofNat 0)) (.number (.ofNat 0))) (.var "c"))]

theorem execute_roundedSource :
    Program.ofSource roundedSource = .ok roundedProgram ∧
      (∀ value ∈ Context.empty.valuesMet roundedProgram, value.Integral) ∧
      (execute roundedSource).lines = ["-9007199254740992", "0"] ∧
      ∀ line ∈ (execute roundedSource).lines, IntegralLine line := by
  have hp : Program.ofSource roundedSource = .ok roundedProgram := by decide +kernel
  have hlines : (execute roundedSource).lines = ["-9007199254740992", "0"] := by
    decide +kernel
  obtain ⟨-, hmet, hintegral⟩ := execute_integral hp
  exact ⟨hp, hmet, hlines, hintegral⟩

end SumScript
