import SumScript.Execute
import SumScript.Proofs.Context.Check

/-!
# Failures

A statement works on its context in single effects: it evaluates, it looks a name
up, it stores a value or emits a line.  A failure does not undo effects that came
before it.  `Statement.perform` runs a statement in this way, so that a statement
could fail with half of its work done.  None does: every failure comes before the
first change (`Statement.perform_eq`).  Hence running in single effects and running
by whole statements, as `Context.run` does, are the same (`Program.perform_eq`).

A run that fails has a first statement that fails (`Program.exists_failsAt`).  It
ends with the context before that statement, whatever the statements after it are
(`Program.FailsAt.run`).
-/

namespace SumScript

/-! ## Effects -/

section

variable {ν : Type}

/-- A computation that reads and changes a context and may fail.  What it has changed
before a failure stays changed. -/
abbrev Effect (ν : Type) := ExceptT RuntimeError (StateM (Context ν))

/-- Looks a variable up. -/
def Effect.find (name : String) : Effect ν (Option ν) := do
  let ctx ← get
  return ctx.env.get? name

/-- Gives a value to a variable. -/
def Effect.store (name : String) (value : ν) : Effect ν Unit :=
  modify fun ctx => { ctx with env := ctx.env.put name value }

/-- Prints a line. -/
def Effect.emit (line : String) : Effect ν Unit :=
  modify fun ctx => { ctx with printed := line :: ctx.printed }

theorem Effect.bind_of_ok {α β : Type} {x : Effect ν α} {f : α → Effect ν β}
    {ctx next : Context ν} {a : α} (h : x ctx = (.ok a, next)) : (x >>= f) ctx = f a next := by
  have hbind : (x >>= f) ctx = ExceptT.bindCont f (x ctx).1 (x ctx).2 := rfl
  rw [hbind, h]
  rfl

theorem Effect.bind_of_error {α β : Type} {x : Effect ν α} {f : α → Effect ν β}
    {ctx next : Context ν} {e : RuntimeError} (h : x ctx = (.error e, next)) :
    (x >>= f) ctx = (.error e, next) := by
  have hbind : (x >>= f) ctx = ExceptT.bindCont f (x ctx).1 (x ctx).2 := rfl
  rw [hbind, h]
  rfl

theorem Effect.find_bind {α : Type} (name : String) (f : Option ν → Effect ν α)
    (ctx : Context ν) : (Effect.find name >>= f) ctx = f (ctx.env.get? name) ctx := rfl

end

variable {ν : Type} [NumberSystem ν]

/-- Evaluates an expression. -/
def Effect.value (e : Expr ν) : Effect ν ν := do
  let ctx ← get
  liftExcept (ctx.env.eval e)

/-- A statement, effect by effect. -/
def Statement.perform : Statement ν → Effect ν Unit
  | .declare name e => do
      let value ← Effect.value e
      match ← Effect.find name with
      | some _ => throw (.redeclared name)
      | none => Effect.store name value
  | .assign name e => do
      let value ← Effect.value e
      match ← Effect.find name with
      | some _ => Effect.store name value
      | none => throw (.undeclared name)
  | .print e => do
      let value ← Effect.value e
      Effect.emit (NumberSystem.text value)

/-- The statements of a program in order, effect by effect. -/
def Program.perform : Program ν → Effect ν Unit
  | [] => return
  | s :: p => do
      s.perform
      Program.perform p

/-! ## Failures come before changes -/

theorem Effect.value_apply (e : Expr ν) (ctx : Context ν) :
    Effect.value e ctx = (ctx.env.eval e, ctx) := by
  change liftExcept (m := Effect ν) (ctx.env.eval e) ctx = _
  cases ctx.env.eval e with
  | error e => rfl
  | ok value => rfl

/-- A statement succeeds with all of its effects, or it fails without any. -/
theorem Statement.perform_eq (s : Statement ν) (ctx : Context ν) :
    s.perform ctx =
      match ctx.exec s with
      | .ok next => (.ok (), next)
      | .error e => (.error e, ctx) := by
  have hvalue := Effect.value_apply s.value ctx
  cases heval : ctx.env.eval s.value with
  | error e =>
      rw [heval] at hvalue
      rw [Context.exec_of_error heval]
      cases s with
      | declare | assign | print => exact Effect.bind_of_error hvalue
  | ok value =>
      rw [heval] at hvalue
      rw [Context.exec_of_ok heval]
      cases s with
      | declare name e =>
          refine (Effect.bind_of_ok hvalue).trans ?_
          rw [Effect.find_bind, Context.settle]
          cases ctx.env.get? name with
          | none => rfl
          | some => rfl
      | assign name e =>
          refine (Effect.bind_of_ok hvalue).trans ?_
          rw [Effect.find_bind, Context.settle]
          cases ctx.env.get? name with
          | none => rfl
          | some => rfl
      | print e => exact Effect.bind_of_ok hvalue

theorem Program.perform_eq (p : Program ν) (ctx : Context ν) :
    Program.perform p ctx = ((ctx.run p).2, (ctx.run p).1) := by
  induction p generalizing ctx with
  | nil => rfl
  | cons s p ih =>
      have hstep := s.perform_eq ctx
      rw [Program.perform, Context.run]
      cases hexec : ctx.exec s with
      | error e =>
          rw [hexec] at hstep
          exact Effect.bind_of_error hstep
      | ok next =>
          rw [hexec] at hstep
          exact (Effect.bind_of_ok hstep).trans (ih next)

/-! ## The first statement that fails -/

/-- The statement at the index is the first to fail: those before it succeed, and it
fails in the context that they lead to. -/
def Program.FailsAt (p : Program ν) (ctx : Context ν) (k : Nat) (e : RuntimeError) : Prop :=
  ∃ s, p[k]? = some s ∧ (Program.perform (p.take k) ctx).1 = .ok () ∧
    (s.perform (Program.perform (p.take k) ctx).2).1 = .error e

theorem Program.failsAt_iff {p : Program ν} {ctx : Context ν} {k : Nat} {e : RuntimeError} :
    Program.FailsAt p ctx k e ↔
      ∃ s, p[k]? = some s ∧ (ctx.run (p.take k)).2 = .ok () ∧
        (ctx.run (p.take k)).1.exec s = .error e := by
  have hfails : ∀ (s : Statement ν) (ctx : Context ν),
      (s.perform ctx).1 = .error e ↔ ctx.exec s = .error e := by
    intro s ctx
    rw [s.perform_eq]
    cases ctx.exec s with
    | error => simp
    | ok => simp
  simp only [Program.FailsAt, Program.perform_eq, hfails]

theorem Program.exists_failsAt {p : Program ν} {ctx : Context ν} {e : RuntimeError}
    (h : (ctx.run p).2 = .error e) : ∃ k, Program.FailsAt p ctx k e := by
  simp only [Program.failsAt_iff]
  induction p generalizing ctx with
  | nil => cases h
  | cons s p ih =>
      rw [Context.run] at h
      cases hexec : ctx.exec s with
      | error e' =>
          rw [hexec] at h
          cases h
          exact ⟨0, s, rfl, rfl, hexec⟩
      | ok next =>
          rw [hexec] at h
          obtain ⟨k, s', hget, hok, hfails⟩ := ih h
          refine ⟨k + 1, s', hget, ?_⟩
          rw [List.take_succ_cons, Context.run, hexec]
          exact ⟨hok, hfails⟩

theorem Context.run_append_of_error {ctx : Context ν} {p : Program ν} {e : RuntimeError}
    (h : (ctx.run p).2 = .error e) (q : Program ν) : ctx.run (p ++ q) = ctx.run p := by
  induction p generalizing ctx with
  | nil => cases h
  | cons s p ih =>
      rw [Context.run] at h
      rw [List.cons_append, Context.run, Context.run]
      cases hexec : ctx.exec s with
      | error e => rfl
      | ok next =>
          rw [hexec] at h
          exact ih h

/-- A run ends at the first statement that fails, in the context before it. -/
theorem Program.FailsAt.run {p : Program ν} {ctx : Context ν} {k : Nat} {e : RuntimeError}
    (h : Program.FailsAt p ctx k e) (later : Program ν) :
    ctx.run (p.take (k + 1) ++ later) = ((ctx.run (p.take k)).1, .error e) := by
  obtain ⟨s, hget, hok, hfails⟩ := Program.failsAt_iff.mp h
  have hrun : ctx.run (p.take (k + 1)) = ((ctx.run (p.take k)).1, .error e) := by
    rw [List.take_add_one, hget, Option.toList_some, Context.run_append hok, Context.run, hfails]
  rw [Context.run_append_of_error (congrArg Prod.snd hrun), hrun]

/-! ## Texts that cannot be read -/

/-- Only the program of a text that was read can do anything. -/
theorem Context.runSource_of_unread {ctx : Context ν} {source : String} {e : Error}
    (h : (ctx.runSource source).2 = .error e) (hread : ∀ r, e ≠ .runtime r) :
    ctx.runSource source = (ctx, .error e) := by
  unfold Context.runSource at h ⊢
  cases hsource : (Program.ofSource source : Except Error (Program ν)) with
  | error e' =>
      rw [hsource] at h
      exact congrArg (ctx, ·) h
  | ok p =>
      rw [hsource] at h
      cases hrun : (ctx.run p).2 with
      | error r =>
          simp only [hrun] at h
          cases h
          exact absurd rfl (hread r)
      | ok =>
          simp only [hrun] at h
          cases h

theorem execute_of_unread {source : String} {e : Error} (h : (execute source).result = .error e)
    (hread : ∀ r, e ≠ .runtime r) : (execute source).lines = [] := by
  have hrun : (Context.empty : Context Double).runSource source = (.empty, .error e) :=
    Context.runSource_of_unread h hread
  simp only [execute, executeOver, hrun]
  rfl

theorem execute_of_ofSource {source : String} {p : Program Double}
    (h : Program.ofSource source = .ok p) :
    execute source =
      ⟨(Context.empty.run p).1.lines, (Context.empty.run p).2.mapError .runtime⟩ := by
  simp only [execute, executeOver, Context.runSource, h]

/-! ## Failures are atomic -/

/-- A run fails exactly if some statement is the first to fail, and it then ends with
the context that the statements before this one lead to: neither the statement that
fails nor any later one has an effect, even if effects are performed one by one.  A
text that cannot be read prints nothing. -/
theorem Context.run_of_failure (ctx : Context ν) (p : Program ν) :
    Program.perform p ctx = ((ctx.run p).2, (ctx.run p).1) ∧
      (∀ e, (ctx.run p).2 = .error e ↔ ∃ k, Program.FailsAt p ctx k e) ∧
      (∀ k e, Program.FailsAt p ctx k e →
        ctx.run p = ((ctx.run (p.take k)).1, .error e) ∧
          ∀ later, ctx.run (p.take (k + 1) ++ later) = ctx.run p) ∧
      ∀ source : String,
        ((∃ e, (execute source).result = .error (.lex e)) ∨
          ∃ e, (execute source).result = .error (.parse e)) → (execute source).lines = [] := by
  have hrun : ∀ k e, Program.FailsAt p ctx k e →
      ctx.run p = ((ctx.run (p.take k)).1, .error e) := by
    intro k e h
    have hlater := h.run (p.drop (k + 1))
    rwa [List.take_append_drop] at hlater
  refine ⟨Program.perform_eq p ctx, ?_, ?_, ?_⟩
  · intro e
    constructor
    · exact Program.exists_failsAt
    · rintro ⟨k, h⟩
      rw [hrun k e h]
  · intro k e h
    refine ⟨hrun k e h, fun later => ?_⟩
    rw [h.run later, hrun k e h]
  · rintro source (⟨e, h⟩ | ⟨e, h⟩)
    · exact execute_of_unread h (by simp)
    · exact execute_of_unread h (by simp)

/-- A context with a variable and a line. -/
def startedContext : Context Double := ⟨⟨[("a", .ofNat 1)]⟩, ["0"]⟩

/-- A program that prints, then declares a variable that exists, and then would go on. -/
def redeclaringProgram : Program Double :=
  [.print (.binary .add (.var "a") (.var "a")), .declare "a" (.number .nan),
    .assign "a" (.number .nan), .print (.var "a")]

theorem Context.run_redeclaringProgram :
    Program.FailsAt redeclaringProgram startedContext 1 (.redeclared "a") ∧
      (startedContext.run redeclaringProgram).2 = .error (.redeclared "a") ∧
      (startedContext.run redeclaringProgram).1.lines = ["0", "2"] ∧
      (startedContext.run redeclaringProgram).1.env.entries = [("a", .ofNat 1)] ∧
      (execute "print(1);\nprint(2 é").lines = [] ∧
      (execute "print(1);\nprint(2;").lines = [] := by
  obtain ⟨-, -, hfailure, hunread⟩ := Context.run_of_failure startedContext redeclaringProgram
  have hfails : Program.FailsAt redeclaringProgram startedContext 1 (.redeclared "a") :=
    ⟨.declare "a" (.number .nan), rfl, rfl, rfl⟩
  have hlines : (startedContext.run (redeclaringProgram.take 1)).1.lines = ["0", "2"] := by
    decide +kernel
  have hlex : (execute "print(1);\nprint(2 é").result = .error (.lex ⟨'é', ⟨2, 9⟩⟩) := by
    decide +kernel
  have hparse : (execute "print(1);\nprint(2;").result =
      .error (.parse (.expected .rightParen ";" ⟨2, 8⟩)) := by
    decide +kernel
  obtain ⟨hrun, -⟩ := hfailure 1 _ hfails
  rw [hrun]
  exact ⟨hfails, rfl, hlines, rfl, hunread _ (Or.inl ⟨_, hlex⟩), hunread _ (Or.inr ⟨_, hparse⟩)⟩

end SumScript
