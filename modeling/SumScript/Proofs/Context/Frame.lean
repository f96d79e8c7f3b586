import SumScript.Proofs.Context.Renaming

/-!
# The names that matter to a run

A run reads and sets only variables whose names occur in its program.  What it reads
follows from renaming with the names left as they are: from contexts that agree on
enough names, a program prints the same, ends the same, and leaves them in agreement
(`Context.run_congr`).  What it sets is what its statements set: all other variables
keep their values (`Context.get?_run`).
-/

namespace SumScript

variable {ν : Type} [NumberSystem ν]

/-! ## What is read -/

theorem mapError_rename_id {α : Type} (result : Except RuntimeError α) :
    result.mapError (RuntimeError.rename id) = result := by
  cases result with
  | error e => exact congrArg Except.error e.rename_id
  | ok a => rfl

/-- An expression has the same value in environments that agree on its names. -/
theorem Env.eval_congr {env env' : Env ν} {e : Expr ν}
    (h : ∀ name ∈ e.names, env'.get? name = env.get? name) : env'.eval e = env.eval e := by
  have hrenamed : Env.Renamed id {name | name ∈ e.names} env env' := h
  have heval := hrenamed.eval fun name hname => hname
  rwa [e.rename_id, mapError_rename_id] at heval

/-- Runs of a program do the same in contexts that agree on its names, and maybe on
further ones. -/
theorem Context.run_congr (names : Set String) {ctx ctx' : Context ν}
    (h : ∀ name ∈ names, ctx'.env.get? name = ctx.env.get? name) {p : Program ν}
    (hp : ∀ name ∈ p.names, name ∈ names) :
    (∀ name ∈ names, (ctx'.run p).1.env.get? name = (ctx.run p).1.env.get? name) ∧
      (ctx'.run p).2 = (ctx.run p).2 ∧ ctx'.valuesPrinted p = ctx.valuesPrinted p := by
  have hrenamed : Env.Renamed id names ctx.env ctx'.env := h
  have hrun := hrenamed.run (Set.injOn_id names) hp
  rwa [p.rename_id, mapError_rename_id] at hrun

/-! ## What is set -/

theorem Context.get?_exec {ctx next : Context ν} {s : Statement ν} (h : ctx.exec s = .ok next)
    {name : String} (hname : s.target ≠ some name) : next.env.get? name = ctx.env.get? name := by
  obtain ⟨value, -, -, rfl⟩ := Context.exec_eq_ok_iff.mp h
  rw [Context.get?_after, if_neg hname]

/-- A run keeps the variables that its program does not set. -/
theorem Context.get?_run (ctx : Context ν) {p : Program ν} {name : String}
    (hname : name ∉ p.targets) : (ctx.run p).1.env.get? name = ctx.env.get? name := by
  induction p generalizing ctx with
  | nil => rfl
  | cons s p ih =>
      have hs : s.target ≠ some name := fun htarget =>
        hname (List.mem_filterMap.mpr ⟨s, List.mem_cons_self, htarget⟩)
      have hp : name ∉ Program.targets p := fun hmem =>
        hname ((List.sublist_cons_self s p).filterMap _ |>.subset hmem)
      rw [Context.run]
      cases hexec : ctx.exec s with
      | error e => rfl
      | ok next => exact (ih next hp).trans (Context.get?_exec hexec hs)

/-! ## Runs from contexts that agree -/

/-- Contexts that agree on the names of a program cannot be told apart by it: it prints
the same lines in both and ends in the same way, and afterwards they still agree.  In
every context, variables that the program does not set are as before. -/
theorem Context.run_of_agree (p : Program ν) :
    (∀ ctx ctx' : Context ν, (∀ name ∈ p.names, ctx.env.get? name = ctx'.env.get? name) →
      (∃ lines, (ctx.run p).1.lines = ctx.lines ++ lines ∧
          (ctx'.run p).1.lines = ctx'.lines ++ lines) ∧
        (ctx.run p).2 = (ctx'.run p).2 ∧
        ∀ name ∈ p.names, (ctx.run p).1.env.get? name = (ctx'.run p).1.env.get? name) ∧
      ∀ (ctx : Context ν) (name : String), name ∉ p.targets →
        (ctx.run p).1.env.get? name = ctx.env.get? name := by
  refine ⟨?_, fun ctx name => ctx.get?_run⟩
  intro ctx ctx' h
  obtain ⟨hafter, hresult, hprinted⟩ :=
    Context.run_congr {name | name ∈ p.names} h fun name hname => hname
  refine ⟨⟨_, ctx.lines_run p, ?_⟩, hresult, hafter⟩
  rw [ctx'.lines_run p, hprinted]

/-- A program that changes a variable and then declares another one twice. -/
def twiceDeclaringProgram : Program Double :=
  [.assign "a" (.binary .add (.var "a") (.number (.ofNat 1))), .print (.var "a"),
    .declare "d" (.var "a"), .declare "d" (.number .nan)]

/-- A context with the one variable that the program needs. -/
def smallContext : Context Double := ⟨⟨[("a", .ofNat 1)]⟩, []⟩

/-- A context with another variable and a line. -/
def largeContext : Context Double := ⟨⟨[("b", .nan), ("a", .ofNat 1)]⟩, ["0"]⟩

theorem Context.run_twiceDeclaringProgram :
    (largeContext.run twiceDeclaringProgram).2 = .error (.redeclared "d") ∧
      (largeContext.run twiceDeclaringProgram).1.lines = ["0", "2"] ∧
      (largeContext.run twiceDeclaringProgram).1.env.get? "d" = some (.ofNat 2) ∧
      (largeContext.run twiceDeclaringProgram).1.env.get? "b" = some .nan := by
  obtain ⟨hagree, hkept⟩ := Context.run_of_agree twiceDeclaringProgram
  obtain ⟨⟨lines, hsmall, hlarge⟩, hresult, hafter⟩ :=
    hagree smallContext largeContext (by decide +kernel)
  have hlines : ["2"] = lines := by
    have hrun : (smallContext.run twiceDeclaringProgram).1.lines = ["2"] := by decide +kernel
    exact hrun.symm.trans hsmall
  have hend : (smallContext.run twiceDeclaringProgram).2 = .error (.redeclared "d") := by
    decide +kernel
  have hvalue : (smallContext.run twiceDeclaringProgram).1.env.get? "d" = some (.ofNat 2) := by
    decide +kernel
  refine ⟨hresult.symm.trans hend, ?_, ?_, hkept largeContext "b" (by decide)⟩
  · rw [hlarge, ← hlines]
    rfl
  · exact (hafter "d" (by decide)).symm.trans hvalue

end SumScript
