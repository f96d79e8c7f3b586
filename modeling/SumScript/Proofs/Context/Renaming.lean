import Mathlib.Data.Set.Function
import SumScript.Proofs.Context.Values

/-!
# Runs under other names

Programs tell the names of their variables apart and look at nothing else of them.  So
a program runs as before if its names are replaced, different ones by different ones,
and if the environment holds under the new names what it held under the old ones.

The correspondence of two environments is asked for a set of names only
(`Env.Renamed`), and the names of the program have to be in it.  Variables with other
names may be there on one side and not on the other, and the new names may be the old
ones.  An evaluation has the same value on both sides or fails on both
(`Env.Renamed.eval`), a statement keeps the correspondence or fails on both sides
(`Env.Renamed.exec`), and so does a run (`Env.Renamed.run`).  Empty environments
correspond whatever the names, so this covers programs that are run from the start.
-/

namespace SumScript

variable {ν : Type}

/-! ## Renaming -/

/-- An expression with other names. -/
def Expr.rename (r : String → String) : Expr ν → Expr ν
  | .number value => .number value
  | .var name => .var (r name)
  | .binary op left right => .binary op (left.rename r) (right.rename r)

/-- A statement with other names. -/
def Statement.rename (r : String → String) : Statement ν → Statement ν
  | .declare name e => .declare (r name) (e.rename r)
  | .assign name e => .assign (r name) (e.rename r)
  | .print e => .print (e.rename r)

/-- A program with other names. -/
def Program.rename (r : String → String) (p : Program ν) : Program ν := p.map (Statement.rename r)

/-- An error about another name. -/
def RuntimeError.rename (r : String → String) : RuntimeError → RuntimeError
  | .redeclared name => .redeclared (r name)
  | .undeclared name => .undeclared (r name)

theorem Expr.rename_id (e : Expr ν) : e.rename id = e := by
  induction e with
  | number => rfl
  | var => rfl
  | binary op left right ihl ihr => rw [Expr.rename, ihl, ihr]

theorem Statement.rename_id (s : Statement ν) : s.rename id = s := by
  cases s with
  | declare name e => rw [Statement.rename, e.rename_id, id]
  | assign name e => rw [Statement.rename, e.rename_id, id]
  | print e => rw [Statement.rename, e.rename_id]

theorem Program.rename_id (p : Program ν) : Program.rename id p = p := by
  rw [Program.rename, funext Statement.rename_id]
  exact List.map_id' p

theorem RuntimeError.rename_id (e : RuntimeError) : e.rename id = e := by
  cases e <;> rfl

theorem Statement.value_rename (r : String → String) (s : Statement ν) :
    (s.rename r).value = s.value.rename r := by
  cases s <;> rfl

theorem Statement.names_value_subset (s : Statement ν) : s.value.names ⊆ s.names := by
  cases s with
  | declare name e => exact List.subset_cons_self name e.names
  | assign name e => exact List.subset_cons_self name e.names
  | print e => exact List.Subset.refl e.names

/-! ## Environments -/

/-- The second environment holds under the new names what the first one holds under the
old ones. -/
def Env.Renamed (r : String → String) (names : Set String) (env env' : Env ν) : Prop :=
  ∀ name ∈ names, env'.get? (r name) = env.get? name

variable {r : String → String} {names : Set String} {env env' : Env ν}

theorem Env.Renamed.put (h : Env.Renamed r names env env') (hr : Set.InjOn r names) {name : String}
    (hname : name ∈ names) (value : ν) :
    Env.Renamed r names (env.put name value) (env'.put (r name) value) := by
  intro other hother
  rw [Env.get?_put, Env.get?_put]
  exact if_congr (hr.eq_iff hother hname) rfl (h other hother)

/-! ## Runs -/

variable [NumberSystem ν]

theorem Env.Renamed.eval (h : Env.Renamed r names env env') {e : Expr ν}
    (he : ∀ name ∈ e.names, name ∈ names) :
    env'.eval (e.rename r) = (env.eval e).mapError (RuntimeError.rename r) := by
  induction e with
  | number => rfl
  | var name =>
      have hname := h name (he name List.mem_cons_self)
      rw [Expr.rename, Env.eval, Env.eval, hname]
      cases env.get? name with
      | none => rfl
      | some value => rfl
  | binary op left right ihl ihr =>
      obtain ⟨hleft, hright⟩ := List.forall_mem_append.mp he
      rw [Expr.rename, Env.eval, Env.eval, ihl hleft, ihr hright]
      cases env.eval left with
      | error e => rfl
      | ok a =>
          cases env.eval right with
          | error e => rfl
          | ok b => rfl

variable {ctx ctx' : Context ν}

/-- One statement keeps the correspondence, or it fails on both sides. -/
theorem Env.Renamed.exec (h : Env.Renamed r names ctx.env ctx'.env) (hr : Set.InjOn r names)
    {s : Statement ν} (hs : ∀ name ∈ s.names, name ∈ names) :
    match ctx.exec s with
    | .error e => ctx'.exec (s.rename r) = .error (e.rename r)
    | .ok next =>
        ∃ next', ctx'.exec (s.rename r) = .ok next' ∧ Env.Renamed r names next.env next'.env := by
  have heval := h.eval fun name hname => hs name (s.names_value_subset hname)
  rw [← s.value_rename] at heval
  cases hvalue : ctx.env.eval s.value with
  | error e =>
      rw [hvalue] at heval
      rw [Context.exec_of_error hvalue]
      exact Context.exec_of_error heval
  | ok value =>
      rw [hvalue] at heval
      rw [Context.exec_of_ok hvalue, Context.exec_of_ok heval]
      cases s with
      | declare name e =>
          have hname := hs name List.mem_cons_self
          rw [Statement.rename, Context.settle, Context.settle, h name hname]
          cases ctx.env.get? name with
          | none => exact ⟨_, rfl, h.put hr hname value⟩
          | some old => rfl
      | assign name e =>
          have hname := hs name List.mem_cons_self
          rw [Statement.rename, Context.settle, Context.settle, h name hname]
          cases ctx.env.get? name with
          | none => rfl
          | some old => exact ⟨_, rfl, h.put hr hname value⟩
      | print e => exact ⟨_, rfl, h⟩

theorem Env.Renamed.printed (h : Env.Renamed r names env env') {s : Statement ν}
    (hs : ∀ name ∈ s.names, name ∈ names) : (s.rename r).printed env' = s.printed env := by
  cases s with
  | declare name e => rfl
  | assign name e => rfl
  | print e =>
      rw [Statement.rename, Statement.printed, Statement.printed, h.eval hs]
      cases env.eval e with
      | error e => rfl
      | ok value => rfl

/-- A run keeps the correspondence, prints the same values, and fails on both sides with
the same error up to the names. -/
theorem Env.Renamed.run (h : Env.Renamed r names ctx.env ctx'.env) (hr : Set.InjOn r names)
    {p : Program ν} (hp : ∀ name ∈ p.names, name ∈ names) :
    Env.Renamed r names (ctx.run p).1.env (ctx'.run (p.rename r)).1.env ∧
      (ctx'.run (p.rename r)).2 = (ctx.run p).2.mapError (RuntimeError.rename r) ∧
      ctx'.valuesPrinted (p.rename r) = ctx.valuesPrinted p := by
  induction p generalizing ctx ctx' with
  | nil => exact ⟨h, rfl, rfl⟩
  | cons s p ih =>
      rw [Program.names, List.flatMap_cons] at hp
      obtain ⟨hs, hp⟩ := List.forall_mem_append.mp hp
      have hstep := h.exec hr hs
      rw [Program.rename, List.map_cons, Context.run, Context.run, Context.valuesPrinted,
        Context.valuesPrinted, h.printed hs]
      cases hexec : ctx.exec s with
      | error e =>
          rw [hexec] at hstep
          rw [hstep]
          exact ⟨h, rfl, rfl⟩
      | ok next =>
          rw [hexec] at hstep
          obtain ⟨next', hexec', hnext⟩ := hstep
          rw [hexec']
          obtain ⟨henv, hresult, hprinted⟩ := ih hnext hp
          exact ⟨henv, hresult, congrArg _ hprinted⟩

/-! ## Programs with other names -/

/-- Names matter to a program only as far as they differ: with other names, different
ones for different ones, it prints the same lines and ends in the same way, up to the
name in the error. -/
theorem Context.run_rename (p : Program ν) (r : String → String)
    (hr : Set.InjOn r {name | name ∈ p.names}) :
    (Context.empty.run (p.rename r)).1.lines = (Context.empty.run p).1.lines ∧
      (Context.empty.run (p.rename r)).2 =
        (Context.empty.run p).2.mapError (RuntimeError.rename r) := by
  have hempty : Env.Renamed r {name | name ∈ p.names} (Context.empty : Context ν).env
      (Context.empty : Context ν).env := fun _ _ => rfl
  obtain ⟨-, hresult, hprinted⟩ := hempty.run hr fun name hname => hname
  refine ⟨?_, hresult⟩
  rw [Context.lines_run, Context.lines_run, hprinted]

/-- A program that computes with two variables and then declares the first one again. -/
def againDeclaringProgram : Program Double :=
  [.declare "a" (.number (.ofNat 1)), .declare "b" (.binary .add (.var "a") (.var "a")),
    .assign "a" (.binary .sub (.var "b") (.number (.ofNat 5))), .print (.var "a"),
    .declare "a" (.var "b")]

/-- A renaming that uses an old name for another variable, and the empty name for all
that the program does not call `a`. -/
def shiftedNames (name : String) : String := if name = "a" then "b" else ""

theorem Context.run_shiftedNames :
    (Context.empty.run (Program.rename shiftedNames againDeclaringProgram)).1.lines = ["-3"] ∧
      (Context.empty.run (Program.rename shiftedNames againDeclaringProgram)).2 =
        .error (.redeclared "b") := by
  have hinjective : ∀ m ∈ Program.names againDeclaringProgram,
      ∀ n ∈ Program.names againDeclaringProgram, shiftedNames m = shiftedNames n → m = n := by
    decide
  obtain ⟨hlines, hresult⟩ := Context.run_rename againDeclaringProgram shiftedNames
    fun m hm n hn => hinjective m hm n hn
  have hrun : (Context.empty.run againDeclaringProgram).1.lines = ["-3"] := by decide +kernel
  have hend : (Context.empty.run againDeclaringProgram).2 = .error (.redeclared "a") := by
    decide +kernel
  refine ⟨hlines.trans hrun, ?_⟩
  rw [hresult, hend]
  rfl

end SumScript
