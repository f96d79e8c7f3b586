import SumScript.Proofs.Context.Simulation
import SumScript.Proofs.Decimal.Shortest

/-!
# Running programs that are the same

Programs are the same if they differ in the signs of their zeros at most and if all of
their literals are numbers (`Program.same_iff`).  The signs of zeros go on into the
variables, and infinities may make both runs come to what is not a number, which is
the same as nothing.  So the values of the two runs need not be the same.

They are *indistinct*: the same number, or both not a number.  Operations keep this
(`Double.Indistinct.add`, `Double.Indistinct.sub`), because where they get other zeros
they give other zeros at most.  Indistinct doubles are printed alike, because a zero is
printed without its sign (`Double.Indistinct.text`).  So the doubles simulate
themselves up to the signs of zeros (`upToZeros`).
-/

namespace SumScript

/-! ## Programs that are the same -/

/-- Equal numbers, or zeros of any sign. -/
inductive Double.Same : Double → Double → Prop where
  | number {x : Double} : x ≠ .nan → Same x x
  | zero {a b : Bool} : Same (.finite a .zero) (.finite b .zero)

/-- Only a zero is the same number with both signs. -/
theorem Double.same_of_signed {a b : Bool} {m n : Magnitude}
    (h : Double.signed a m = Double.signed b n) : (Double.finite a m).Same (.finite b n) := by
  have hquanta : m.quanta = n.quanta := by
    rw [← Double.natAbs_signed a m, h, Double.natAbs_signed]
  obtain rfl := Magnitude.eq_of_quanta hquanta
  by_cases hab : a = b
  · rw [hab]
    exact .number nofun
  · have hzero : m.quanta = 0 := by
      cases a <;> cases b <;> simp [Double.signed] at h hab <;> omega
    obtain rfl : m = .zero := Magnitude.eq_of_quanta hzero
    exact .zero

theorem Double.sameNumber_iff {x y : Double} : x.sameNumber y ↔ x.Same y := by
  constructor
  · intro h
    cases x with
    | nan => cases h
    | infinite a =>
        cases y with
        | infinite b =>
            obtain rfl := eq_of_beq h
            exact .number nofun
        | nan | finite => cases h
    | finite a m =>
        cases y with
        | finite b n => exact Double.same_of_signed (eq_of_beq h)
        | nan | infinite => cases h
  · intro h
    cases h with
    | number hx =>
        cases x with
        | nan => exact absurd rfl hx
        | infinite => exact beq_self_eq_true _
        | finite => exact beq_self_eq_true _
    | @zero a b => cases a <;> cases b <;> rfl

theorem Expr.same_iff {e e' : Expr Double} : e.same e' ↔ e.Related Double.Same e' := by
  constructor
  · intro h
    induction e generalizing e' with
    | number x =>
        cases e' with
        | number y => exact .number (Double.sameNumber_iff.mp h)
        | var | binary => cases h
    | var name =>
        cases e' with
        | var name' =>
            obtain rfl := eq_of_beq h
            exact .var
        | number | binary => cases h
    | binary op left right ihl ihr =>
        cases e' with
        | binary op' left' right' =>
            simp only [Expr.same, Bool.and_eq_true, beq_iff_eq] at h
            obtain ⟨⟨rfl, hleft⟩, hright⟩ := h
            exact .binary (ihl hleft) (ihr hright)
        | number | var => cases h
  · intro h
    induction h with
    | number hxy => exact Double.sameNumber_iff.mpr hxy
    | var => exact beq_self_eq_true _
    | binary _ _ ihl ihr => simp [Expr.same, ihl, ihr]

theorem Statement.same_iff {s s' : Statement Double} :
    s.same s' ↔ s.Related Double.Same s' := by
  constructor
  · intro h
    cases s with
    | declare name e =>
        cases s' with
        | declare name' e' =>
            simp only [Statement.same, Bool.and_eq_true, beq_iff_eq] at h
            obtain ⟨rfl, he⟩ := h
            exact .declare (Expr.same_iff.mp he)
        | assign | print => cases h
    | assign name e =>
        cases s' with
        | assign name' e' =>
            simp only [Statement.same, Bool.and_eq_true, beq_iff_eq] at h
            obtain ⟨rfl, he⟩ := h
            exact .assign (Expr.same_iff.mp he)
        | declare | print => cases h
    | print e =>
        cases s' with
        | print e' => exact .print (Expr.same_iff.mp h)
        | declare | assign => cases h
  · intro h
    cases h with
    | declare he => simp [Statement.same, Expr.same_iff.mpr he]
    | assign he => simp [Statement.same, Expr.same_iff.mpr he]
    | print he => exact Expr.same_iff.mpr he

theorem Program.same_iff {p q : Program Double} :
    Program.same p q ↔ Program.Related Double.Same p q := by
  constructor
  · intro h
    induction p generalizing q with
    | nil =>
        cases q with
        | nil => exact .nil
        | cons => cases h
    | cons s p ih =>
        cases q with
        | nil => cases h
        | cons s' q =>
            simp only [Program.same, Bool.and_eq_true] at h
            exact .cons (Statement.same_iff.mp h.1) (ih h.2)
  · intro h
    induction h with
    | nil => rfl
    | cons hs _ ih => simp [Program.same, Statement.same_iff.mpr hs, ih]

/-! ## Indistinct doubles -/

/-- Doubles that are the same number, or both not a number. -/
inductive Double.Indistinct : Double → Double → Prop where
  | nan : Indistinct .nan .nan
  | infinite {negative : Bool} : Indistinct (.infinite negative) (.infinite negative)
  | finite {a b : Bool} {m n : Magnitude} : Double.signed a m = Double.signed b n →
      Indistinct (.finite a m) (.finite b n)

theorem Double.Same.indistinct {x y : Double} (h : x.Same y) : x.Indistinct y := by
  cases h with
  | number hx =>
      cases x with
      | nan => exact absurd rfl hx
      | infinite => exact .infinite
      | finite => exact .finite rfl
  | @zero a b => cases a <;> cases b <;> exact .finite rfl

/-- The sign that is set down for a zero does not make a sum distinct. -/
theorem Double.ofQuanta_indistinct (a b : Bool) (quanta : Int) :
    (Double.ofQuanta a quanta).Indistinct (Double.ofQuanta b quanta) := by
  unfold Double.ofQuanta Double.nearest
  split
  next => exact Double.Same.zero.indistinct
  next =>
    split
    next => exact .finite rfl
    next => exact .infinite

section

variable {x x' y y' : Double}

theorem Double.Indistinct.add (hx : x.Indistinct x') (hy : y.Indistinct y') :
    (x.add y).Indistinct (x'.add y') := by
  cases hx with
  | nan => exact .nan
  | @infinite a =>
      cases hy with
      | nan => exact .nan
      | @infinite b =>
          rw [Double.add]
          split
          · exact .infinite
          · exact .nan
      | finite => exact .infinite
  | finite hm =>
      cases hy with
      | nan => exact .nan
      | infinite => exact .infinite
      | finite hn =>
          rw [Double.add, Double.add, hm, hn]
          exact Double.ofQuanta_indistinct _ _ _

theorem Double.Indistinct.neg (h : x.Indistinct x') : x.neg.Indistinct x'.neg := by
  cases h with
  | nan => exact .nan
  | infinite => exact .infinite
  | finite hm =>
      refine .finite ?_
      rw [Double.signed_not, Double.signed_not, hm]

theorem Double.Indistinct.sub (hx : x.Indistinct x') (hy : y.Indistinct y') :
    (x.sub y).Indistinct (x'.sub y') :=
  hx.add hy.neg

theorem Double.Indistinct.text (h : x.Indistinct x') : x.text = x'.text := by
  cases h with
  | nan => rfl
  | infinite => rfl
  | finite hm =>
      cases Double.same_of_signed hm with
      | number => rfl
      | zero => rw [Double.text_zero rfl, Double.text_zero rfl]

end

/-- The doubles simulate themselves, whatever the signs of zeros. -/
def upToZeros : Simulation Double Double where
  good _ := True
  rel := Double.Indistinct
  apply op hx hy _ := by
    cases op with
    | add => exact hx.add hy
    | sub => exact hx.sub hy
  text h := h.text

/-! ## Runs -/

/-- Programs are the same if their literals are equal numbers or zeros, one by one.
Then both print the same lines and end in the same way. -/
theorem Context.run_of_same (p q : Program Double) :
    (Program.same p q ↔ Program.Related Double.Same p q) ∧
      (Program.same p q →
        (Context.empty.run p).1.lines = (Context.empty.run q).1.lines ∧
          (Context.empty.run p).2 = (Context.empty.run q).2) := by
  refine ⟨Program.same_iff, fun h => ?_⟩
  have hrelated : Program.Related upToZeros.Literals p q :=
    (Program.same_iff.mp h).imp fun x y hxy _ => hxy.indistinct
  obtain ⟨hctx, hresult⟩ :=
    Simulation.run upToZeros.contexts_empty hrelated (fun _ _ => trivial)
  refine ⟨?_, hresult⟩
  rw [Context.lines, Context.lines, hctx.printed]

/-- A program that adds up two zeros, reaches what is not a number, and breaks off. -/
def zeroProgram (zero : Double) : Program Double :=
  [.declare "z" (.binary .add (.number zero) (.number zero)), .print (.var "z"),
    .declare "i" (.binary .sub (.number (.infinite true)) (.var "z")),
    .print (.binary .sub (.var "i") (.var "i")), .assign "y" (.var "z")]

theorem Context.run_zeroProgram :
    Program.same (zeroProgram (.finite false .zero)) (zeroProgram (.finite true .zero)) ∧
      (Context.empty.run (zeroProgram (.finite false .zero))).1.env.get? "z" =
        some (.finite false .zero) ∧
      (Context.empty.run (zeroProgram (.finite true .zero))).1.env.get? "z" =
        some (.finite true .zero) ∧
      (Context.empty.run (zeroProgram (.finite true .zero))).1.lines = ["0", "NaN"] ∧
      (Context.empty.run (zeroProgram (.finite false .zero))).1.lines =
        (Context.empty.run (zeroProgram (.finite true .zero))).1.lines ∧
      (Context.empty.run (zeroProgram (.finite false .zero))).2 =
        (Context.empty.run (zeroProgram (.finite true .zero))).2 := by
  have hsame :
      Program.same (zeroProgram (.finite false .zero)) (zeroProgram (.finite true .zero)) := by
    decide +kernel
  refine ⟨hsame, ?_, ?_, ?_, (Context.run_of_same _ _).2 hsame⟩
  · decide +kernel
  · decide +kernel
  · decide +kernel

end SumScript
