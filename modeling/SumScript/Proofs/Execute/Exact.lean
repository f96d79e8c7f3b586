import Mathlib.Algebra.Order.Ring.Int
import SumScript.Execute
import SumScript.Proofs.Context.Simulation
import SumScript.Proofs.Decimal.Shortest
import SumScript.Proofs.Program.Agreement

/-!
# Exact runs

As long as no number in a run is beyond 2 to the power 53, running over the doubles
is the same as running over the integers.  All integers up to there are doubles, so
an operation whose exact result is one of them is not rounded
(`Double.Denotes.add`, `Double.Denotes.sub`), and a double is printed with the
digits of the integer that it is (`Double.Denotes.text`).  An integer may be
denoted by two doubles, as zero is; neither operations nor printing tell the two
apart.

So the doubles simulate the integers (`exactly`), and the rest holds of any
simulation.
-/

namespace SumScript

/-! ## Integers as doubles -/

/-- The double is finite, and it is the integer. -/
def Double.Denotes (x : Double) (n : Int) : Prop :=
  ∃ negative m, x = .finite negative m ∧ Double.signed negative m = n * Magnitude.one

theorem Double.signed_of_natAbs {q : Int} {m : Magnitude} (h : m.quanta = q.natAbs) :
    Double.signed (decide (q < 0)) m = q := by
  unfold Double.signed
  rw [h]
  split
  next hneg =>
    rw [decide_eq_true_eq] at hneg
    omega
  next hneg =>
    rw [decide_eq_true_eq] at hneg
    omega

theorem natAbs_mul_one (n : Int) : (n * Magnitude.one).natAbs = n.natAbs * Magnitude.one := by
  rw [Int.natAbs_mul, Int.natAbs_natCast]

theorem Magnitude.nonneg_of_mul_one {n : Int} (h : 0 ≤ n * Magnitude.one) : 0 ≤ n :=
  (mul_nonneg_iff_of_pos_right (Int.natCast_pos.mpr Magnitude.one_pos)).mp h

/-- The sign of a double is that of the integer, but for a zero. -/
theorem Double.sign_eq {negative : Bool} {m : Magnitude} {n : Int}
    (h : Double.signed negative m = n * Magnitude.one) :
    (negative && decide (n.natAbs ≠ 0)) = decide (n < 0) := by
  cases negative with
  | true =>
      have hle : 0 ≤ -n * Magnitude.one := by
        rw [Int.neg_mul, ← h, ← Double.signed_not]
        exact Int.natCast_nonneg _
      have hneg := Magnitude.nonneg_of_mul_one hle
      simp only [Bool.true_and, decide_eq_decide]
      omega
  | false =>
      have hle : 0 ≤ n * Magnitude.one := by
        rw [← h]
        exact Int.natCast_nonneg _
      simpa using Magnitude.nonneg_of_mul_one hle

/-- An integer that needs no rounding is what comes of rounding it. -/
theorem Double.ofQuanta_denotes {n : Int} (h : n.natAbs ≤ 2 ^ 53) (negativeZero : Bool) :
    (Double.ofQuanta negativeZero (n * Magnitude.one)).Denotes n := by
  unfold Double.ofQuanta
  split
  next hzero =>
    refine ⟨negativeZero, .zero, rfl, ?_⟩
    rw [hzero]
    cases negativeZero <;> rfl
  next =>
    have hrepresentable := representable_mul_one h
    have hround : roundQuanta (n * Magnitude.one).natAbs 1 = n.natAbs * Magnitude.one := by
      rw [natAbs_mul_one, roundQuanta_of_representable hrepresentable]
    refine ⟨_, ⟨_, hrepresentable⟩, Double.nearest_eq hround _, ?_⟩
    exact Double.signed_of_natAbs (natAbs_mul_one n).symm

theorem Double.denotes_ofNat {n : Nat} (h : n ≤ 2 ^ 53) : (Double.ofNat n).Denotes n := by
  have hrepresentable := representable_mul_one h
  have hround := roundQuanta_of_representable hrepresentable
  exact ⟨false, ⟨_, hrepresentable⟩, Double.nearest_eq hround false, rfl⟩

section

variable {x y : Double} {a b : Int}

theorem Double.Denotes.add (hx : x.Denotes a) (hy : y.Denotes b)
    (h : (a + b).natAbs ≤ 2 ^ 53) : (x.add y).Denotes (a + b) := by
  obtain ⟨s, m, rfl, hm⟩ := hx
  obtain ⟨t, n, rfl, hn⟩ := hy
  rw [Double.add, hm, hn, ← Int.add_mul]
  exact Double.ofQuanta_denotes h _

theorem Double.Denotes.neg (hx : x.Denotes a) : x.neg.Denotes (-a) := by
  obtain ⟨s, m, rfl, hm⟩ := hx
  refine ⟨!s, m, rfl, ?_⟩
  rw [Double.signed_not, hm, Int.neg_mul]

theorem Double.Denotes.sub (hx : x.Denotes a) (hy : y.Denotes b)
    (h : (a - b).natAbs ≤ 2 ^ 53) : (x.sub y).Denotes (a - b) :=
  hx.add hy.neg h

/-- A double is printed as the integer that it is.  The sign of a zero is not shown. -/
theorem Double.Denotes.text (hx : x.Denotes a) (h : a.natAbs ≤ 2 ^ 53) :
    NumberSystem.text a = x.text := by
  obtain ⟨negative, m, rfl, hm⟩ := hx
  have hquanta : m.quanta = a.natAbs * Magnitude.one := by
    rw [← Double.natAbs_signed negative m, hm, natAbs_mul_one]
  rw [Double.text_of_le h hquanta, Double.sign_eq hm]
  rfl

end

/-! ## Programs -/

/-- The doubles simulate the integers up to 2 to the power 53. -/
def exactly : Simulation Int Double where
  good n := n.natAbs ≤ 2 ^ 53
  rel n x := x.Denotes n ∧ n.natAbs ≤ 2 ^ 53
  apply op hx hy h := by
    cases op with
    | add => exact ⟨hx.1.add hy.1 h, h⟩
    | sub => exact ⟨hx.1.sub hy.1 h, h⟩
  text h := h.1.text h.2

theorem exactly_literals (n : Int) (x : Double) (h : SameLiteral n x) : exactly.Literals n x := by
  obtain ⟨k, rfl, rfl⟩ := h
  intro hgood
  exact ⟨Double.denotes_ofNat hgood, hgood⟩

/-- A text is read over all number systems alike. -/
theorem Program.ofSource_related {ν μ : Type} [NumberSystem ν] [NumberSystem μ] {source : String}
    {p : Program ν} (h : Program.ofSource source = .ok p) :
    ∃ q : Program μ, Program.ofSource source = .ok q ∧ Program.Related SameLiteral p q := by
  obtain ⟨tokens, htokens, hread⟩ := Program.ofSource_eq_ok_iff.mp h
  obtain ⟨q, hread', hrelated⟩ := Program.ofTokens_of_agree (μ := μ) hread (.refl tokens)
  exact ⟨q, Program.ofSource_eq_ok_iff.mpr ⟨tokens, htokens, hread'⟩, hrelated⟩

/-- If no value in the run over the integers is beyond 2 to the power 53, then the run
over the doubles prints the same lines and ends in the same way. -/
theorem execute_eq_exact {source : String} {p : Program Int} (hp : Program.ofSource source = .ok p)
    (hbound : ∀ n ∈ Context.empty.valuesMet p, n.natAbs ≤ 2 ^ 53) :
    execute source = executeOver Int source := by
  obtain ⟨q, hq, hrelated⟩ := Program.ofSource_related (μ := Double) hp
  obtain ⟨hctx, hresult⟩ :=
    Simulation.run exactly.contexts_empty (hrelated.imp exactly_literals) hbound
  simp only [execute, executeOver, Context.runSource, hp, hq, Context.lines, hctx.printed, hresult]

/-- A run that goes up to the bound and down to its negative, and then breaks off. -/
def boundarySource : String := "new a=9007199254740991;a=a+1;print(0-a);print(a-a);print(a+c);"

/-- The program of the run. -/
def boundaryProgram : Program Int :=
  [.declare "a" (.number 9007199254740991), .assign "a" (.binary .add (.var "a") (.number 1)),
    .print (.binary .sub (.number 0) (.var "a")), .print (.binary .sub (.var "a") (.var "a")),
    .print (.binary .add (.var "a") (.var "c"))]

theorem execute_boundarySource :
    Program.ofSource boundarySource = .ok boundaryProgram ∧
      (∀ n ∈ Context.empty.valuesMet boundaryProgram, n.natAbs ≤ 2 ^ 53) ∧
      execute boundarySource = executeOver Int boundarySource ∧
      (executeOver Int boundarySource).lines = ["-9007199254740992", "0"] := by
  have hp : Program.ofSource boundarySource = .ok boundaryProgram := by decide +kernel
  have hbound : ∀ n ∈ Context.empty.valuesMet boundaryProgram, n.natAbs ≤ 2 ^ 53 := by
    decide +kernel
  have hlines : (executeOver Int boundarySource).lines = ["-9007199254740992", "0"] := by
    simp only [executeOver, Context.runSource, hp]
    decide +kernel
  exact ⟨hp, hbound, execute_eq_exact hp hbound, hlines⟩

end SumScript
