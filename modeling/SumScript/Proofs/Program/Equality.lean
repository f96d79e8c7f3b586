import SumScript.Proofs.Context.Same
import SumScript.Proofs.Decimal.Literal
import SumScript.Proofs.Program.Grammar

/-!
# Equality of programs

Programs are compared number by number, and numbers are not compared for identity.  The
two zeros are the same, and what is not a number is not even the same as itself.  So
equality of programs is no equivalence, but it is symmetric and transitive, and it fails
to be reflexive just for programs that hold what is not a number.  All of this comes down
to single numbers, because programs are the same if their numbers are, one by one
(`Program.same_iff`).

No list of tokens makes such a program.  The numbers of what is read are those of literals
(`Program.Derives.exists_literal`), and a literal denotes a number or an infinity, both
without a sign (`Double.ofNat_unsigned`).
-/

namespace SumScript

/-! ## Numbers -/

theorem Double.Same.symm {x y : Double} (h : x.Same y) : y.Same x := by
  cases h with
  | number hx => exact .number hx
  | zero => exact .zero

theorem Double.Same.trans {x y z : Double} (h : x.Same y) (h' : y.Same z) : x.Same z := by
  cases h with
  | number => exact h'
  | zero =>
      cases h' with
      | number => exact .zero
      | zero => exact .zero

theorem Double.same_self_iff {x : Double} : x.Same x ↔ x ≠ .nan := by
  constructor
  · intro h
    cases h with
    | number hx => exact hx
    | zero => exact nofun
  · exact .number

/-- A natural number as a double has no sign. -/
theorem Double.ofNat_unsigned (n : Nat) :
    Bits.sign (Double.ofNat n).toBits = 0 ∧ Double.ofNat n ≠ .nan := by
  refine ⟨(Double.ofNat_correctlyRounded n).unsigned, ?_⟩
  rcases Double.ofNat_cases n with heq | ⟨m, heq, -⟩
  · simp [heq]
  · simp [heq]

/-! ## Programs -/

theorem Program.same_symm {p q : Program Double} (h : Program.same p q) : Program.same q p := by
  rw [Program.same_iff] at h ⊢
  exact Program.Related.symm (fun _ _ hxy => hxy.symm) h

theorem Program.same_trans {p q q' : Program Double} (h : Program.same p q)
    (h' : Program.same q q') : Program.same p q' := by
  rw [Program.same_iff] at h h' ⊢
  exact Program.Related.trans (fun _ _ _ hxy hyz => hxy.trans hyz) h h'

theorem Program.same_self_iff {p : Program Double} :
    Program.same p p ↔ ∀ s ∈ p, ∀ x ∈ s.value.numbers, x ≠ .nan := by
  rw [Program.same_iff, Program.related_self_iff]
  simp only [Double.same_self_iff]

/-- The numbers of a program that is read from tokens have no sign. -/
theorem Program.unsigned_of_ofTokens {p : Program Double} {tokens : List Token}
    (h : Program.ofTokens tokens = .ok p) :
    ∀ s ∈ p, ∀ x ∈ s.value.numbers, Bits.sign x.toBits = 0 ∧ x ≠ .nan := by
  obtain ⟨used, marker, rest, -, hderives, -⟩ := Program.ofTokens_eq_ok_iff.mp h
  intro s hs x hx
  obtain ⟨n, rfl⟩ := hderives.exists_literal s hs x hx
  exact Double.ofNat_unsigned n

/-- Equality of programs is symmetric and transitive.  A program is the same as itself
unless it holds what is not a number.  A program that is read from tokens never does: its
numbers have no sign, and each of them is one. -/
theorem Program.same_partialEquivalence :
    (∀ p q : Program Double, Program.same p q ↔ Program.same q p) ∧
      (∀ p q q' : Program Double, Program.same p q → Program.same q q' → Program.same p q') ∧
      (∀ p : Program Double,
        Program.same p p ↔ ∀ s ∈ p, ∀ x ∈ s.value.numbers, x ≠ .nan) ∧
      ∀ (tokens : List Token) (p : Program Double), Program.ofTokens tokens = .ok p →
        (∀ s ∈ p, ∀ x ∈ s.value.numbers, Bits.sign x.toBits = 0 ∧ x ≠ .nan) ∧
          Program.same p p := by
  refine ⟨fun p q => ⟨Program.same_symm, Program.same_symm⟩, fun p q q' => Program.same_trans,
    fun p => Program.same_self_iff, ?_⟩
  intro tokens p hread
  have hnumbers := Program.unsigned_of_ofTokens hread
  exact ⟨hnumbers, Program.same_self_iff.mpr fun s hs x hx => (hnumbers s hs x hx).2⟩

/-- A program with a value that is not a number, deep on the right of its second statement. -/
def missingNumber : Program Double :=
  [.declare "x" (.number (.finite true .zero)),
    .assign "x" (.binary .sub (.var "x")
      (.binary .add (.number (.infinite true)) (.number .nan)))]

/-- Literals with zeros in front, one of them between two doubles, among tokens whose
texts do not fit their kinds. -/
def oddTokens : List Token :=
  [⟨.print, "", ⟨0, 0⟩⟩, ⟨.leftParen, "[", ⟨0, 0⟩⟩, ⟨.number, "00", ⟨0, 0⟩⟩,
    ⟨.minus, "+", ⟨0, 0⟩⟩, ⟨.number, "09007199254740993", ⟨0, 0⟩⟩, ⟨.rightParen, "", ⟨0, 0⟩⟩,
    ⟨.semicolon, "", ⟨0, 0⟩⟩, ⟨.endOfInput, "end", ⟨0, 0⟩⟩]

/-- The program of these tokens. -/
def oddProgram : Program Double :=
  [.print (.binary .sub (.number (.finite false .zero)) (.number (.ofNat 9007199254740992)))]

theorem Program.same_oddProgram :
    Program.same (zeroProgram (.finite false .zero)) (zeroProgram (.finite true .zero)) ∧
      Program.same (zeroProgram (.finite true .zero)) (zeroProgram (.finite false .zero)) ∧
      Program.same (zeroProgram (.finite false .zero)) (zeroProgram (.finite false .zero)) ∧
      ¬ Program.same missingNumber missingNumber ∧
      Program.ofTokens oddTokens = .ok oddProgram ∧
      Program.same oddProgram oddProgram := by
  obtain ⟨hsymm, htrans, hself, hread⟩ := Program.same_partialEquivalence
  have hzero :
      Program.same (zeroProgram (.finite false .zero)) (zeroProgram (.finite true .zero)) := by
    decide +kernel
  have hback := (hsymm _ _).mp hzero
  have htokens : Program.ofTokens oddTokens = .ok oddProgram := by decide +kernel
  refine ⟨hzero, hback, htrans _ _ _ hzero hback, ?_, htokens, (hread _ _ htokens).2⟩
  simp [hself, missingNumber, Statement.value, Expr.numbers]

end SumScript
