import SumScript.Proofs.Context.Frame

/-!
# Statements that may change places

Two statements are independent if neither sets a variable that occurs in the other,
and if they do not both print (`Statement.Independent`).  Whether the second one
succeeds, and with which value, is then settled in the context before both
(`Statement.Independent.run_eq_ok_iff`), and their effects may come in either order
(`Statement.Independent.after_after`).  So the statements can be exchanged anywhere in a
program that succeeds: the contexts after them agree on all names, and what follows
cannot tell them apart.
-/

namespace SumScript

variable {ν : Type}

/-! ## Independence -/

/-- Neither statement sets a variable that occurs in the other, and they do not both
print. -/
structure Statement.Independent (s t : Statement ν) : Prop where
  left : ∀ name, s.target = some name → name ∉ t.names
  right : ∀ name, t.target = some name → name ∉ s.names
  prints : ¬ (s.isPrint = true ∧ t.isPrint = true)

theorem Statement.Independent.symm {s t : Statement ν} (h : s.Independent t) :
    t.Independent s where
  left := h.right
  right := h.left
  prints hprint := h.prints hprint.symm

theorem Statement.mem_names_of_target {s : Statement ν} {name : String}
    (h : s.target = some name) : name ∈ s.names := by
  cases s with
  | declare | assign =>
      cases h
      exact List.mem_cons_self
  | print e => cases h

theorem Statement.admitted_congr {env env' : Env ν} {s : Statement ν}
    (h : ∀ name ∈ s.names, env'.get? name = env.get? name) :
    s.Admitted env' ↔ s.Admitted env := by
  cases s with
  | declare name e => rw [Statement.Admitted, Statement.Admitted, h name List.mem_cons_self]
  | assign name e => rw [Statement.Admitted, Statement.Admitted, h name List.mem_cons_self]
  | print e => exact Iff.rfl

variable [NumberSystem ν]

/-! ## Runs that succeed -/

theorem Context.run_cons_eq_ok_iff {ctx last : Context ν} {s : Statement ν} {p : Program ν} :
    ctx.run (s :: p) = (last, .ok ()) ↔
      ∃ next, ctx.exec s = .ok next ∧ next.run p = (last, .ok ()) := by
  rw [Context.run]
  cases ctx.exec s with
  | error e => simp
  | ok next => simp

theorem Context.run_append_eq_ok_iff {ctx last : Context ν} {p q : Program ν} :
    ctx.run (p ++ q) = (last, .ok ()) ↔
      ∃ next, ctx.run p = (next, .ok ()) ∧ next.run q = (last, .ok ()) := by
  induction p generalizing ctx with
  | nil => simp [Context.run]
  | cons s p ih =>
      simp only [List.cons_append, Context.run_cons_eq_ok_iff, ih]
      constructor
      · rintro ⟨first, hs, next, hp, hq⟩
        exact ⟨next, ⟨first, hs, hp⟩, hq⟩
      · rintro ⟨next, ⟨first, hs, hp⟩, hq⟩
        exact ⟨first, hs, next, hp, hq⟩

namespace Statement.Independent

variable {s t : Statement ν} (h : s.Independent t)

include h

/-! ## Two statements -/

/-- Two independent statements succeed one after the other exactly if each of them does
by itself.  The second one finds its names as they were before the first. -/
theorem run_eq_ok_iff {ctx last : Context ν} :
    ctx.run [s, t] = (last, .ok ()) ↔
      ∃ a b, (ctx.env.eval s.value = .ok a ∧ s.Admitted ctx.env) ∧
        (ctx.env.eval t.value = .ok b ∧ t.Admitted ctx.env) ∧
        last = (ctx.after s a).after t b := by
  have hnames : ∀ a, ∀ name ∈ t.names, (ctx.after s a).env.get? name = ctx.env.get? name := by
    intro a name hname
    rw [Context.get?_after, if_neg fun htarget => h.left name htarget hname]
  have heval : ∀ a, (ctx.after s a).env.eval t.value = ctx.env.eval t.value := fun a =>
    Env.eval_congr fun name hname => hnames a name (t.names_value_subset hname)
  have hadmitted : ∀ a, t.Admitted (ctx.after s a).env ↔ t.Admitted ctx.env := fun a =>
    Statement.admitted_congr (hnames a)
  constructor
  · intro hrun
    obtain ⟨_, hs, hrun⟩ := Context.run_cons_eq_ok_iff.mp hrun
    obtain ⟨_, ht, hrun⟩ := Context.run_cons_eq_ok_iff.mp hrun
    cases hrun
    obtain ⟨a, ha, hsadmitted, rfl⟩ := Context.exec_eq_ok_iff.mp hs
    obtain ⟨b, hb, htadmitted, rfl⟩ := Context.exec_eq_ok_iff.mp ht
    exact ⟨a, b, ⟨ha, hsadmitted⟩, ⟨heval a ▸ hb, (hadmitted a).mp htadmitted⟩, rfl⟩
  · rintro ⟨a, b, ⟨ha, hsadmitted⟩, ⟨hb, htadmitted⟩, rfl⟩
    have hs : ctx.exec s = .ok (ctx.after s a) :=
      Context.exec_eq_ok_iff.mpr ⟨a, ha, hsadmitted, rfl⟩
    have ht : (ctx.after s a).exec t = .ok ((ctx.after s a).after t b) :=
      Context.exec_eq_ok_iff.mpr ⟨b, (heval a).trans hb, (hadmitted a).mpr htadmitted, rfl⟩
    exact Context.run_cons_eq_ok_iff.mpr ⟨_, hs, Context.run_cons_eq_ok_iff.mpr ⟨_, ht, rfl⟩⟩

/-- The effects of two independent statements commute. -/
theorem after_after (ctx : Context ν) (a b : ν) :
    ((ctx.after t b).after s a).lines = ((ctx.after s a).after t b).lines ∧
      ∀ name, ((ctx.after t b).after s a).env.get? name =
        ((ctx.after s a).after t b).env.get? name := by
  constructor
  · simp only [Context.lines, Context.printed_after]
    cases hs : s.isPrint with
    | false => rfl
    | true =>
        cases ht : t.isPrint with
        | false => rfl
        | true => exact absurd ⟨hs, ht⟩ h.prints
  · intro name
    simp only [Context.get?_after]
    by_cases hs : s.target = some name
    · have ht : t.target ≠ some name := fun htarget =>
        h.left name hs (Statement.mem_names_of_target htarget)
      rw [if_pos hs, if_neg ht, if_pos hs]
    · rw [if_neg hs, if_neg hs]

/-! ## Whole programs -/

/-- A run that succeeds also does so with the two statements exchanged. -/
theorem exists_run {ctx last : Context ν} {pre post : Program ν}
    (hrun : ctx.run (pre ++ [s, t] ++ post) = (last, .ok ())) :
    ∃ last', ctx.run (pre ++ [t, s] ++ post) = (last', .ok ()) ∧ last'.lines = last.lines ∧
      ∀ name, last'.env.get? name = last.env.get? name := by
  obtain ⟨next, hrun, hpost⟩ := Context.run_append_eq_ok_iff.mp hrun
  obtain ⟨start, hpre, hpair⟩ := Context.run_append_eq_ok_iff.mp hrun
  obtain ⟨a, b, ha, hb, rfl⟩ := h.run_eq_ok_iff.mp hpair
  have hpair' : start.run [t, s] = ((start.after t b).after s a, .ok ()) :=
    h.symm.run_eq_ok_iff.mpr ⟨b, a, hb, ha, rfl⟩
  obtain ⟨hlines, henv⟩ := h.after_after start a b
  obtain ⟨henv', hresult, hprinted⟩ :=
    Context.run_congr Set.univ (fun name _ => henv name) fun name (_ : name ∈ post.names) => trivial
  rw [hpost] at henv' hresult
  refine ⟨(((start.after t b).after s a).run post).1, ?_, ?_, fun name => henv' name trivial⟩
  · exact Context.run_append_eq_ok_iff.mpr
      ⟨_, Context.run_append_eq_ok_iff.mpr ⟨start, hpre, hpair'⟩, Prod.ext rfl hresult⟩
  · rw [Context.lines_run, hprinted, hlines, ← Context.lines_run, hpost]

end Statement.Independent

/-- Independent statements that follow each other may change places, whatever comes
before and after them: a run succeeds with both orders or with none, and then prints the
same lines and ends with the same variables. -/
theorem Context.run_swap (ctx : Context ν) (pre post : Program ν) {s t : Statement ν}
    (h : s.Independent t) :
    ((ctx.run (pre ++ [s, t] ++ post)).2 = .ok () ↔
        (ctx.run (pre ++ [t, s] ++ post)).2 = .ok ()) ∧
      ((ctx.run (pre ++ [s, t] ++ post)).2 = .ok () →
        (ctx.run (pre ++ [s, t] ++ post)).1.lines = (ctx.run (pre ++ [t, s] ++ post)).1.lines ∧
          ∀ name, (ctx.run (pre ++ [s, t] ++ post)).1.env.get? name =
            (ctx.run (pre ++ [t, s] ++ post)).1.env.get? name) := by
  refine ⟨⟨?_, ?_⟩, ?_⟩
  · intro hok
    obtain ⟨last, hrun, -, -⟩ := h.exists_run (Prod.ext rfl hok)
    rw [hrun]
  · intro hok
    obtain ⟨last, hrun, -, -⟩ := h.symm.exists_run (Prod.ext rfl hok)
    rw [hrun]
  · intro hok
    obtain ⟨last, hrun, hlines, henv⟩ := h.exists_run (Prod.ext rfl hok)
    rw [hrun]
    exact ⟨hlines.symm, fun name => (henv name).symm⟩

/-- A program that declares a variable, goes on with two statements, and prints a
difference. -/
def differenceProgram (s t : Statement Double) : Program Double :=
  [.declare "a" (.number (.ofNat 1))] ++ [s, t] ++ [.print (.binary .sub (.var "b") (.var "c"))]

def declareDouble : Statement Double := .declare "b" (.binary .add (.var "a") (.var "a"))

def declareCopy : Statement Double := .declare "c" (.var "a")

theorem declareDouble_independent : declareDouble.Independent declareCopy where
  left name h := by
    cases h
    decide
  right name h := by
    cases h
    decide
  prints := by decide

theorem Context.run_differenceProgram :
    (Context.empty.run (differenceProgram declareCopy declareDouble)).2 = .ok () ∧
      (Context.empty.run (differenceProgram declareCopy declareDouble)).1.lines = ["1"] ∧
      (Context.empty.run (differenceProgram declareCopy declareDouble)).1.env.get? "b" =
        some (.ofNat 2) := by
  obtain ⟨hiff, hsame⟩ := Context.run_swap Context.empty [.declare "a" (.number (.ofNat 1))]
    [.print (.binary .sub (.var "b") (.var "c"))] declareDouble_independent
  have hok : (Context.empty.run (differenceProgram declareDouble declareCopy)).2 = .ok () := by
    decide +kernel
  have hrun : (Context.empty.run (differenceProgram declareDouble declareCopy)).1.lines =
      ["1"] := by
    decide +kernel
  have hvalue : (Context.empty.run (differenceProgram declareDouble declareCopy)).1.env.get? "b" =
      some (.ofNat 2) := by
    decide +kernel
  obtain ⟨hlines, henv⟩ := hsame hok
  exact ⟨hiff.mp hok, hlines.symm.trans hrun, (henv "b").symm.trans hvalue⟩

end SumScript
