import SumScript.Proofs.Context.Simulation

/-!
# What holds of all values

A property that operations keep holds of every number in a run, if it holds of the
numbers that the program and the context have at the start.  The argument is the same
for all properties.  An evaluation meets only such numbers (`Env.valuesMet_good`), a
statement that succeeds stores or prints one of them (`Context.exec_eq_ok_iff`), so it
leaves a context with the property (`Context.All.exec`), and by induction so does a run
(`Context.All.run`).  The lines of a run are the values that it prints
(`Context.lines_run`), and these are among the values that it meets.
-/

namespace SumScript

variable {ν : Type} [NumberSystem ν]

/-! ## Evaluations -/

/-- Operations keep the property. -/
def Closed (good : ν → Prop) : Prop :=
  ∀ (op : Operator) (a b : ν), good a → good b → good (op.apply a b)

/-- The value of an expression is one of those that its evaluation meets. -/
theorem Env.mem_valuesMet {env : Env ν} {e : Expr ν} {value : ν} (h : env.eval e = .ok value) :
    value ∈ env.valuesMet e := by
  cases e with
  | number x =>
      cases h
      exact List.mem_singleton_self value
  | var name =>
      rw [Env.eval] at h
      cases hget : env.get? name with
      | none =>
          rw [hget] at h
          cases h
      | some x =>
          rw [hget] at h
          cases h
          rw [Env.valuesMet, hget]
          exact List.mem_singleton_self value
  | binary op left right =>
      rw [Env.eval] at h
      rw [Env.valuesMet]
      cases hleft : env.eval left with
      | error e =>
          rw [hleft] at h
          cases h
      | ok a =>
          cases hright : env.eval right with
          | error e =>
              rw [hleft, hright] at h
              cases h
          | ok b =>
              rw [hleft, hright] at h
              cases h
              simp

section

variable {good : ν → Prop} (hclosed : Closed good)

include hclosed

theorem Env.valuesMet_good {env : Env ν}
    (henv : ∀ name value, env.get? name = some value → good value) {e : Expr ν}
    (hnumbers : ∀ x ∈ e.numbers, good x) : ∀ value ∈ env.valuesMet e, good value := by
  induction e with
  | number x => exact hnumbers
  | var name =>
      intro value hvalue
      exact henv name value (Option.mem_toList.mp hvalue)
  | binary op left right ihl ihr =>
      obtain ⟨hnumbersl, hnumbersr⟩ := List.forall_mem_append.mp hnumbers
      have hleft := ihl hnumbersl
      have hright := ihr hnumbersr
      refine Env.forall_valuesMet_binary.mpr ⟨hleft, fun a ha => ⟨hright, fun b hb => ?_⟩⟩
      exact hclosed op a b (hleft a (Env.mem_valuesMet ha)) (hright b (Env.mem_valuesMet hb))

end

/-! ## Statements that succeed -/

/-- The statement may set its variable: a declaration if the variable is new, and an
assignment if it exists. -/
def Statement.Admitted (env : Env ν) : Statement ν → Prop
  | .declare name _ => env.get? name = none
  | .assign name _ => env.get? name ≠ none
  | .print _ => True

/-- The context after a statement whose expression has the value: the value is stored or
printed. -/
def Context.after (ctx : Context ν) (s : Statement ν) (value : ν) : Context ν :=
  match s.target with
  | some name => { ctx with env := ctx.env.put name value }
  | none => { ctx with printed := NumberSystem.text value :: ctx.printed }

theorem Context.get?_after (ctx : Context ν) (s : Statement ν) (value : ν) (name : String) :
    (ctx.after s value).env.get? name =
      if s.target = some name then some value else ctx.env.get? name := by
  rw [Context.after]
  cases s.target with
  | none => rfl
  | some other =>
      rw [Env.get?_put]
      exact if_congr (by simp [eq_comm]) rfl rfl

theorem Context.printed_after (ctx : Context ν) (s : Statement ν) (value : ν) :
    (ctx.after s value).printed =
      if s.isPrint then NumberSystem.text value :: ctx.printed else ctx.printed := by
  cases s <;> rfl

/-- What a statement needs to succeed, and what it does then. -/
theorem Context.exec_eq_ok_iff {ctx next : Context ν} {s : Statement ν} :
    ctx.exec s = .ok next ↔
      ∃ value, ctx.env.eval s.value = .ok value ∧ s.Admitted ctx.env ∧
        next = ctx.after s value := by
  cases heval : ctx.env.eval s.value with
  | error e => simp [Context.exec_of_error heval]
  | ok value =>
      rw [Context.exec_of_ok heval]
      simp only [Except.ok.injEq, exists_eq_left']
      cases s with
      | declare name e =>
          rw [Context.settle]
          cases hget : ctx.env.get? name with
          | none => simp [Statement.Admitted, hget, Context.after, Statement.target, eq_comm]
          | some old => simp [Statement.Admitted, hget]
      | assign name e =>
          rw [Context.settle]
          cases hget : ctx.env.get? name with
          | none => simp [Statement.Admitted, hget]
          | some old =>
              simp [Statement.Admitted, hget, Context.after, Statement.target, eq_comm]
      | print e =>
          simp [Context.settle, Statement.Admitted, Context.after, Statement.target, eq_comm]

/-! ## Runs -/

/-- The property holds of all variables, and all lines are printed from numbers of
which it holds. -/
structure Context.All (good : ν → Prop) (ctx : Context ν) : Prop where
  env : ∀ name value, ctx.env.get? name = some value → good value
  printed : ∀ line ∈ ctx.printed, ∃ value, good value ∧ line = NumberSystem.text value

theorem Context.All.empty {good : ν → Prop} : (Context.empty : Context ν).All good where
  env _ _ h := nomatch h
  printed _ h := nomatch h

section

variable {good : ν → Prop} (hclosed : Closed good)

include hclosed

theorem Context.All.exec {ctx next : Context ν} (h : ctx.All good) {s : Statement ν}
    (hnumbers : ∀ x ∈ s.value.numbers, good x) (hexec : ctx.exec s = .ok next) :
    next.All good := by
  obtain ⟨value, heval, -, rfl⟩ := Context.exec_eq_ok_iff.mp hexec
  have hvalue : good value :=
    Env.valuesMet_good hclosed h.env hnumbers value (Env.mem_valuesMet heval)
  constructor
  · intro name found hfound
    rw [Context.get?_after] at hfound
    split at hfound
    next =>
      cases hfound
      exact hvalue
    next => exact h.env name found hfound
  · intro line hline
    rw [Context.printed_after] at hline
    split at hline
    next =>
      rcases List.mem_cons.mp hline with rfl | hline
      · exact ⟨value, hvalue, rfl⟩
      · exact h.printed line hline
    next => exact h.printed line hline

/-- The property holds wherever a run ends, and of every value that it meets. -/
theorem Context.All.run {ctx : Context ν} (h : ctx.All good) {p : Program ν}
    (hnumbers : ∀ s ∈ p, ∀ x ∈ s.value.numbers, good x) :
    (ctx.run p).1.All good ∧ ∀ value ∈ ctx.valuesMet p, good value := by
  induction p generalizing ctx with
  | nil => exact ⟨h, List.forall_mem_nil _⟩
  | cons s p ih =>
      obtain ⟨hs, hp⟩ := List.forall_mem_cons.mp hnumbers
      have hmet := Env.valuesMet_good hclosed h.env hs
      rw [Context.forall_valuesMet_cons, Context.run]
      cases hexec : ctx.exec s with
      | error e =>
          refine ⟨h, hmet, ?_⟩
          intro next hnext
          cases hnext
      | ok next =>
          obtain ⟨hend, hrest⟩ := ih (h.exec hclosed hs hexec) hp
          refine ⟨hend, hmet, ?_⟩
          rintro _ ⟨⟩
          exact hrest

end

/-! ## The values that are printed -/

/-- The value that a statement prints, if it prints one. -/
def Statement.printed (env : Env ν) : Statement ν → List ν
  | .print e => (env.eval e).toOption.toList
  | _ => []

/-- The values that a run prints, in order. -/
def Context.valuesPrinted (ctx : Context ν) : Program ν → List ν
  | [] => []
  | s :: p =>
      match ctx.exec s with
      | .error _ => []
      | .ok next => s.printed ctx.env ++ next.valuesPrinted p

theorem Context.lines_of_exec {ctx next : Context ν} {s : Statement ν}
    (h : ctx.exec s = .ok next) :
    next.lines = ctx.lines ++ (s.printed ctx.env).map NumberSystem.text := by
  obtain ⟨value, heval, -, rfl⟩ := Context.exec_eq_ok_iff.mp h
  cases s with
  | declare | assign => exact (List.append_nil _).symm
  | print e =>
      have hvalue : ctx.env.eval e = .ok value := heval
      rw [Statement.printed, hvalue]
      exact List.reverse_cons

/-- The lines of a run are its printed values. -/
theorem Context.lines_run (ctx : Context ν) (p : Program ν) :
    (ctx.run p).1.lines = ctx.lines ++ (ctx.valuesPrinted p).map NumberSystem.text := by
  induction p generalizing ctx with
  | nil => exact (List.append_nil _).symm
  | cons s p ih =>
      rw [Context.run, Context.valuesPrinted]
      cases hexec : ctx.exec s with
      | error e => exact (List.append_nil _).symm
      | ok next =>
          simp only
          rw [ih next, Context.lines_of_exec hexec, List.append_assoc, List.map_append]

theorem Context.mem_valuesMet_of_printed {ctx : Context ν} {p : Program ν} {value : ν}
    (h : value ∈ ctx.valuesPrinted p) : value ∈ ctx.valuesMet p := by
  induction p generalizing ctx with
  | nil => cases h
  | cons s p ih =>
      rw [Context.valuesPrinted] at h
      rw [Context.valuesMet]
      cases hexec : ctx.exec s with
      | error e =>
          rw [hexec] at h
          cases h
      | ok next =>
          rw [hexec] at h
          rcases List.mem_append.mp h with hprinted | hlater
          · refine List.mem_append_left _ ?_
            cases s with
            | declare | assign => cases hprinted
            | print e =>
                cases heval : ctx.env.eval e with
                | error _ =>
                    rw [Statement.printed, heval] at hprinted
                    cases hprinted
                | ok x =>
                    rw [Statement.printed, heval] at hprinted
                    cases List.mem_singleton.mp hprinted
                    exact Env.mem_valuesMet heval
          · exact List.mem_append_right _ (ih hlater)

end SumScript
