import SumScript.Env
import SumScript.Error
import SumScript.Program.Basic

/-!
# Running programs

A context is the state of a run: the environment and the lines printed so far.
Statements run in order until one fails.  A statement evaluates its expression
before anything else, and an expression its left operand before its right one.
A statement that fails leaves the context as it was.
-/

namespace SumScript

/-- The state of a run. -/
structure Context (ν : Type) where
  /-- The variables. -/
  env : Env ν
  /-- The lines printed so far, the last one first. -/
  printed : List String

/-- The state before the first statement. -/
def Context.empty {ν : Type} : Context ν := ⟨.empty, []⟩

/-- The lines printed so far, in order. -/
def Context.lines {ν : Type} (ctx : Context ν) : List String := ctx.printed.reverse

section

variable {ν : Type} [NumberSystem ν]

/-- The value of an expression. -/
def Env.eval (env : Env ν) : Expr ν → Except RuntimeError ν
  | .number value => .ok value
  | .var name =>
      match env.get? name with
      | some value => .ok value
      | none => .error (.undeclared name)
  | .binary op left right => do
      let a ← env.eval left
      let b ← env.eval right
      return op.apply a b

/-- The context after a statement. -/
def Context.exec (ctx : Context ν) : Statement ν → Except RuntimeError (Context ν)
  | .declare name expr => do
      let value ← ctx.env.eval expr
      match ctx.env.get? name with
      | some _ => .error (.redeclared name)
      | none => return { ctx with env := ctx.env.put name value }
  | .assign name expr => do
      let value ← ctx.env.eval expr
      match ctx.env.get? name with
      | some _ => return { ctx with env := ctx.env.put name value }
      | none => .error (.undeclared name)
  | .print expr => do
      let value ← ctx.env.eval expr
      return { ctx with printed := NumberSystem.text value :: ctx.printed }

/-- Runs statements until one fails: the context that is reached, and how the run
ended. -/
def Context.run (ctx : Context ν) : Program ν → Context ν × Except RuntimeError Unit
  | [] => (ctx, .ok ())
  | statement :: program =>
      match ctx.exec statement with
      | .error e => (ctx, .error e)
      | .ok ctx => ctx.run program

end

end SumScript
