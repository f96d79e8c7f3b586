import Mathlib.Data.Finset.Basic
import SumScript.Context
import SumScript.Proofs.Program.Shape

/-!
# Errors before a run

Whether a run breaks off does not depend on any value.  `Program.check` walks
over a program with the set of names that are declared so far, and says how the
run will end, how many statements it will pass and which names will exist.  It
looks at shapes only: numbers play no part in it (`Program.check_shape`).

An evaluation fails at the leftmost name that does not exist, whatever the tree
looks like (`Env.eval_of_firstUndeclared`).  From this follows what one statement
does to the names and the lines (`Context.exec_check`), and by induction what a
run does (`Context.run_check`).
-/

namespace SumScript

variable {ν : Type}

/-! ## The check -/

/-- The leftmost name in an expression that is not declared. -/
def Expr.firstUndeclared (declared : Finset String) (e : Expr ν) : Option String :=
  e.names.find? fun name => name ∉ declared

theorem Expr.firstUndeclared_var (declared : Finset String) (name : String) :
    (Expr.var name : Expr ν).firstUndeclared declared =
      if name ∈ declared then none else some name := by
  by_cases h : name ∈ declared
  · simp [Expr.firstUndeclared, Expr.names, h]
  · simp [Expr.firstUndeclared, Expr.names, h]

theorem Expr.firstUndeclared_binary (declared : Finset String) (op : Operator)
    (left right : Expr ν) :
    (Expr.binary op left right).firstUndeclared declared =
      (left.firstUndeclared declared).or (right.firstUndeclared declared) :=
  List.find?_append

/-- The names that are declared after a statement whose expression has a value, or
the error that it still makes. -/
def Statement.checkTarget (declared : Finset String) :
    Statement ν → Except RuntimeError (Finset String)
  | .declare name _ =>
      if name ∈ declared then .error (.redeclared name) else .ok (insert name declared)
  | .assign name _ => if name ∈ declared then .ok declared else .error (.undeclared name)
  | .print _ => .ok declared

/-- The names that are declared after a statement, or the error that it makes. -/
def Statement.check (declared : Finset String) (s : Statement ν) :
    Except RuntimeError (Finset String) :=
  match s.value.firstUndeclared declared with
  | some name => .error (.undeclared name)
  | none => s.checkTarget declared

/-- What the check of a program finds. -/
structure Checked where
  /-- The names that are declared at the end, or where the run breaks off. -/
  declared : Finset String
  /-- How many statements come before the one that fails; all of them if none does. -/
  passed : Nat
  /-- How the run ends. -/
  result : Except RuntimeError Unit

/-- Checks statements in order until one fails. -/
def Program.check (declared : Finset String) : Program ν → Checked
  | [] => ⟨declared, 0, .ok ()⟩
  | s :: p =>
      match s.check declared with
      | .error e => ⟨declared, 0, .error e⟩
      | .ok next =>
          let rest := Program.check next p
          ⟨rest.declared, rest.passed + 1, rest.result⟩

theorem Program.check_cons_error {declared : Finset String} {s : Statement ν} {e : RuntimeError}
    (h : s.check declared = .error e) (p : Program ν) :
    Program.check declared (s :: p) = ⟨declared, 0, .error e⟩ := by
  rw [Program.check, h]

theorem Program.check_cons_ok {declared next : Finset String} {s : Statement ν}
    (h : s.check declared = .ok next) (p : Program ν) :
    Program.check declared (s :: p) =
      ⟨(Program.check next p).declared, (Program.check next p).passed + 1,
        (Program.check next p).result⟩ := by
  rw [Program.check, h]

/-- The check ends at the end of the program, or at a statement that fails with
the names declared up to there. -/
theorem Program.check_stops (declared : Finset String) (p : Program ν) :
    match (Program.check declared p).result with
    | .ok () => (Program.check declared p).passed = p.length
    | .error e =>
        ∃ s, p[(Program.check declared p).passed]? = some s ∧
          s.check (Program.check declared p).declared = .error e := by
  induction p generalizing declared with
  | nil => rfl
  | cons s p ih =>
      cases hcheck : s.check declared with
      | error e =>
          rw [Program.check_cons_error hcheck]
          exact ⟨s, rfl, hcheck⟩
      | ok next =>
          rw [Program.check_cons_ok hcheck]
          have hrest := ih next
          cases hresult : (Program.check next p).result with
          | ok =>
              rw [hresult] at hrest
              exact congrArg (· + 1) hrest
          | error e =>
              rw [hresult] at hrest
              exact hrest

theorem Program.check_take {declared : Finset String} {p : Program ν} {k : Nat}
    (hk : k ≤ (Program.check declared p).passed) :
    (Program.check declared (p.take k)).result = .ok () := by
  induction k generalizing declared p with
  | zero => rfl
  | succ k ih =>
      cases p with
      | nil => rfl
      | cons s p =>
          cases hcheck : s.check declared with
          | error e =>
              rw [Program.check_cons_error hcheck] at hk
              cases hk
          | ok next =>
              rw [Program.check_cons_ok hcheck] at hk
              rw [List.take_succ_cons, Program.check_cons_ok hcheck]
              exact ih (Nat.le_of_succ_le_succ hk)

/-! ## The check and shapes -/

theorem Statement.check_shape (declared : Finset String) (s : Statement ν) :
    s.shape.check declared = s.check declared := by
  have hfirst : s.shape.value.firstUndeclared declared = s.value.firstUndeclared declared := by
    rw [Expr.firstUndeclared, s.value_shape, s.value.names_shape]
    rfl
  have htarget : s.shape.checkTarget declared = s.checkTarget declared := by
    cases s <;> rfl
  rw [Statement.check, hfirst, htarget, Statement.check]

theorem Program.check_shape (declared : Finset String) (p : Program ν) :
    Program.check declared p.shape = Program.check declared p := by
  induction p generalizing declared with
  | nil => rfl
  | cons s p ih =>
      have hs := s.check_shape declared
      rw [Program.shape, List.map_cons]
      cases hcheck : s.check declared with
      | error e =>
          rw [hcheck] at hs
          rw [Program.check_cons_error hs, Program.check_cons_error hcheck]
      | ok next =>
          rw [hcheck] at hs
          rw [Program.check_cons_ok hs, Program.check_cons_ok hcheck]
          rw [← ih next]
          rfl

theorem Program.countP_isPrint_shape (p : Program ν) (n : Nat) :
    (p.shape.take n).countP Statement.isPrint = (p.take n).countP Statement.isPrint := by
  rw [Program.shape, ← List.map_take, List.countP_map]
  exact congrArg (List.countP · _) (funext Statement.isPrint_shape)

/-! ## Names in an environment -/

/-- The names of the variables that exist. -/
def Env.names (env : Env ν) : Finset String := (env.entries.map Prod.fst).toFinset

theorem Env.mem_names {env : Env ν} {name : String} :
    name ∈ env.names ↔ ∃ value, env.get? name = some value := by
  simp only [Env.names, Env.get?, List.mem_toFinset, List.mem_map, Option.map_eq_some_iff]
  constructor
  · rintro ⟨entry, hentry, rfl⟩
    have hfound : (env.entries.find? (·.1 = entry.1)).isSome := by
      exact List.find?_isSome.mpr ⟨entry, hentry, decide_eq_true rfl⟩
    obtain ⟨found, hfound⟩ := Option.isSome_iff_exists.mp hfound
    exact ⟨_, found, hfound, rfl⟩
  · rintro ⟨value, found, hfound, -⟩
    refine ⟨found, List.mem_of_find?_eq_some hfound, ?_⟩
    simpa using List.find?_some hfound

theorem Env.get?_eq_none_iff {env : Env ν} {name : String} :
    env.get? name = none ↔ name ∉ env.names := by
  rw [Env.mem_names, ← Option.ne_none_iff_exists', not_not]

theorem Env.names_put (env : Env ν) (name : String) (value : ν) :
    (env.put name value).names = insert name env.names := by
  ext other
  rw [Env.mem_names, Finset.mem_insert, Env.mem_names, Env.get?_put]
  by_cases h : other = name
  · simp [h]
  · simp [h]

/-! ## Running what was checked -/

section

variable [NumberSystem ν]

/-- An evaluation fails at the leftmost name that does not exist, and has a value
if all of them do.  Where the left operand fails, the right one is not looked at. -/
theorem Env.eval_of_firstUndeclared (env : Env ν) (e : Expr ν) :
    match e.firstUndeclared env.names with
    | some name => env.eval e = .error (.undeclared name)
    | none => ∃ value, env.eval e = .ok value := by
  induction e with
  | number value => exact ⟨value, rfl⟩
  | var name =>
      rw [Expr.firstUndeclared_var, Env.eval]
      by_cases h : name ∈ env.names
      · obtain ⟨value, hvalue⟩ := Env.mem_names.mp h
        rw [if_pos h, hvalue]
        exact ⟨value, rfl⟩
      · rw [if_neg h, Env.get?_eq_none_iff.mpr h]
  | binary op left right ihl ihr =>
      rw [Expr.firstUndeclared_binary, Env.eval]
      cases hl : left.firstUndeclared env.names with
      | some name =>
          rw [hl] at ihl
          simp only [ihl]
          rfl
      | none =>
          rw [hl] at ihl
          obtain ⟨a, ha⟩ := ihl
          cases hr : right.firstUndeclared env.names with
          | some name =>
              rw [hr] at ihr
              simp only [ha, ihr]
              rfl
          | none =>
              rw [hr] at ihr
              obtain ⟨b, hb⟩ := ihr
              simp only [ha, hb]
              exact ⟨op.apply a b, rfl⟩

/-- What a statement does once its expression has a value. -/
def Context.settle (ctx : Context ν) (value : ν) : Statement ν → Except RuntimeError (Context ν)
  | .declare name _ =>
      match ctx.env.get? name with
      | some _ => .error (.redeclared name)
      | none => .ok { ctx with env := ctx.env.put name value }
  | .assign name _ =>
      match ctx.env.get? name with
      | some _ => .ok { ctx with env := ctx.env.put name value }
      | none => .error (.undeclared name)
  | .print _ => .ok { ctx with printed := NumberSystem.text value :: ctx.printed }

theorem Context.exec_eq (ctx : Context ν) (s : Statement ν) :
    ctx.exec s = ctx.env.eval s.value >>= fun value => ctx.settle value s := by
  cases s <;> rfl

theorem Context.exec_of_error {ctx : Context ν} {s : Statement ν} {e : RuntimeError}
    (h : ctx.env.eval s.value = .error e) : ctx.exec s = .error e := by
  rw [Context.exec_eq, h]
  rfl

theorem Context.exec_of_ok {ctx : Context ν} {s : Statement ν} {value : ν}
    (h : ctx.env.eval s.value = .ok value) : ctx.exec s = ctx.settle value s := by
  rw [Context.exec_eq, h]
  rfl

/-- The names after a statement and the lines that it adds, or the error that it
makes, are those of the check.  An assignment does not add a name. -/
theorem Context.settle_checkTarget (ctx : Context ν) (value : ν) (s : Statement ν) :
    match ctx.settle value s with
    | .error e => s.checkTarget ctx.env.names = .error e
    | .ok next =>
        s.checkTarget ctx.env.names = .ok next.env.names ∧
          next.printed.length = ctx.printed.length + if s.isPrint then 1 else 0 := by
  cases s with
  | declare name e =>
      cases hget : ctx.env.get? name with
      | some old =>
          have hmem : name ∈ ctx.env.names := Env.mem_names.mpr ⟨old, hget⟩
          simp only [Context.settle, hget, Statement.checkTarget, if_pos hmem]
      | none =>
          have hnew : name ∉ ctx.env.names := Env.get?_eq_none_iff.mp hget
          simp only [Context.settle, hget, Statement.checkTarget, if_neg hnew, Env.names_put]
          exact ⟨trivial, rfl⟩
  | assign name e =>
      cases hget : ctx.env.get? name with
      | some old =>
          have hmem : name ∈ ctx.env.names := Env.mem_names.mpr ⟨old, hget⟩
          simp only [Context.settle, hget, Statement.checkTarget, if_pos hmem, Env.names_put,
            Finset.insert_eq_of_mem hmem]
          exact ⟨trivial, rfl⟩
      | none =>
          have hnew : name ∉ ctx.env.names := Env.get?_eq_none_iff.mp hget
          simp only [Context.settle, hget, Statement.checkTarget, if_neg hnew]
  | print e => exact ⟨rfl, List.length_cons⟩

theorem Context.exec_check (ctx : Context ν) (s : Statement ν) :
    match ctx.exec s with
    | .error e => s.check ctx.env.names = .error e
    | .ok next =>
        s.check ctx.env.names = .ok next.env.names ∧
          next.printed.length = ctx.printed.length + if s.isPrint then 1 else 0 := by
  have heval := ctx.env.eval_of_firstUndeclared s.value
  rw [Context.exec_eq, Statement.check]
  cases hfirst : s.value.firstUndeclared ctx.env.names with
  | some name =>
      rw [hfirst] at heval
      rw [heval]
      rfl
  | none =>
      rw [hfirst] at heval
      obtain ⟨value, hvalue⟩ := heval
      rw [hvalue]
      exact ctx.settle_checkTarget value s

/-- A run ends as the check says, with the names that the check says, and prints a
line for each `print` among the statements that pass. -/
theorem Context.run_check (ctx : Context ν) (p : Program ν) :
    (ctx.run p).2 = (Program.check ctx.env.names p).result ∧
      (ctx.run p).1.env.names = (Program.check ctx.env.names p).declared ∧
      (ctx.run p).1.printed.length =
        ctx.printed.length +
          (p.take (Program.check ctx.env.names p).passed).countP Statement.isPrint := by
  induction p generalizing ctx with
  | nil => exact ⟨rfl, rfl, rfl⟩
  | cons s p ih =>
      have hstep := ctx.exec_check s
      rw [Context.run]
      cases hexec : ctx.exec s with
      | error e =>
          rw [hexec] at hstep
          rw [Program.check_cons_error hstep]
          exact ⟨rfl, rfl, rfl⟩
      | ok next =>
          rw [hexec] at hstep
          obtain ⟨hcheck, hlines⟩ := hstep
          obtain ⟨hresult, hnames, hprinted⟩ := ih next
          rw [Program.check_cons_ok hcheck]
          refine ⟨hresult, hnames, ?_⟩
          rw [List.take_succ_cons, List.countP_cons, hprinted, hlines]
          omega

theorem Context.run_append {ctx : Context ν} {p : Program ν} (h : (ctx.run p).2 = .ok ())
    (q : Program ν) : ctx.run (p ++ q) = (ctx.run p).1.run q := by
  induction p generalizing ctx with
  | nil => rfl
  | cons s p ih =>
      rw [Context.run] at h
      rw [List.cons_append, Context.run, Context.run]
      cases hexec : ctx.exec s with
      | error e => rw [hexec] at h; cases h
      | ok next => rw [hexec] at h; exact ih h

/-! ## Runs and checks from the start -/

theorem Context.lines_length_of_check (p : Program ν) :
    (Context.empty.run p).1.lines.length =
      (p.take (Program.check ∅ p).passed).countP Statement.isPrint := by
  obtain ⟨-, -, hprinted⟩ := Context.empty.run_check p
  rw [Context.lines, List.length_reverse, hprinted]
  exact Nat.zero_add _

/-- How a run ends, how many lines it prints and which names exist on the way is
what the check says of the program.  So programs that differ in their numbers only
end alike, and after equally many lines. -/
theorem Context.run_eq_check (p : Program ν) :
    (Context.empty.run p).2 = (Program.check ∅ p).result ∧
      (Context.empty.run p).1.lines.length =
        (p.take (Program.check ∅ p).passed).countP Statement.isPrint ∧
      (match (Program.check ∅ p).result with
        | .ok () => (Program.check ∅ p).passed = p.length
        | .error e =>
            ∃ s, p[(Program.check ∅ p).passed]? = some s ∧
              s.check (Program.check ∅ p).declared = .error e) ∧
      (∀ k ≤ (Program.check ∅ p).passed,
        Context.empty.run p = (Context.empty.run (p.take k)).1.run (p.drop k) ∧
          (Context.empty.run (p.take k)).1.env.names = (Program.check ∅ (p.take k)).declared) ∧
      ∀ q : Program ν, q.shape = p.shape →
        (Context.empty.run q).2 = (Context.empty.run p).2 ∧
          (Context.empty.run q).1.lines.length = (Context.empty.run p).1.lines.length := by
  have hresult (r : Program ν) : (Context.empty.run r).2 = (Program.check ∅ r).result :=
    (Context.empty.run_check r).1
  refine ⟨hresult p, Context.lines_length_of_check p, Program.check_stops ∅ p, ?_, ?_⟩
  · intro k hk
    have hok : (Context.empty.run (p.take k)).2 = .ok () := by
      rw [hresult, Program.check_take hk]
    refine ⟨?_, (Context.empty.run_check (p.take k)).2.1⟩
    rw [← Context.run_append hok, List.take_append_drop]
  · intro q hshape
    have hcheck : Program.check ∅ q = Program.check ∅ p := by
      rw [← q.check_shape, hshape, p.check_shape]
    constructor
    · rw [hresult, hresult, hcheck]
    · rw [Context.lines_length_of_check, Context.lines_length_of_check, hcheck,
        ← q.countP_isPrint_shape, hshape, p.countP_isPrint_shape]

end

/-- A program that prints a sum and then adds to a name that does not exist. -/
def strayProgram (x y : Double) : Program Double :=
  [.declare "a" (.number x), .print (.binary .sub (.var "a") (.number y)),
    .declare "a" (.binary .add (.number y) (.var "b")), .print (.number x)]

theorem Context.run_strayProgram :
    (Context.empty.run (strayProgram .nan .nan)).2 = .error (.undeclared "b") ∧
      (Context.empty.run (strayProgram .nan .nan)).1.lines.length = 1 ∧
      (Context.empty.run ((strayProgram .nan .nan).take 2)).1.env.names = {"a"} ∧
      (Context.empty.run (strayProgram (.infinite true) .nan)).2 = .error (.undeclared "b") := by
  obtain ⟨hresult, hlines, -, hnames, hother⟩ := Context.run_eq_check (strayProgram .nan .nan)
  exact ⟨hresult, hlines, (hnames 2 (Nat.le_refl 2)).2,
    (hother (strayProgram (.infinite true) .nan) rfl).1.trans hresult⟩

end SumScript
