import SumScript.Proofs.Context.Check

/-!
# Runs over two number systems

Two programs that differ in their numbers only run side by side: they declare the
same variables, and they fail at the same statement if they fail.  If moreover the
numbers of one *simulate* those of the other, then both print the same lines.

A `Simulation` is a correspondence of numbers that operations keep and that printing
does not show.  It may be partial.  Operations have to keep it only for results
that are good on the first side, and `Context.valuesMet` lists the numbers of which
this is asked: the value of every expression that a run evaluates, down to the
operands.  The run is simulated statement by statement (`Simulation.exec`), and by
induction as a whole (`Simulation.run`).
-/

namespace SumScript

/-! ## The values of a run -/

section

variable {ν : Type} [NumberSystem ν]

/-- The values that an evaluation meets, in order: those of all operands and
operations up to the first operand without a value. -/
def Env.valuesMet (env : Env ν) : Expr ν → List ν
  | .number value => [value]
  | .var name => (env.get? name).toList
  | .binary op left right =>
      env.valuesMet left ++
        match env.eval left with
        | .error _ => []
        | .ok a =>
            env.valuesMet right ++
              match env.eval right with
              | .error _ => []
              | .ok b => [op.apply a b]

theorem Env.forall_valuesMet_binary {env : Env ν} {op : Operator} {left right : Expr ν}
    {good : ν → Prop} :
    (∀ v ∈ env.valuesMet (.binary op left right), good v) ↔
      (∀ v ∈ env.valuesMet left, good v) ∧
        ∀ a, env.eval left = .ok a → (∀ v ∈ env.valuesMet right, good v) ∧
          ∀ b, env.eval right = .ok b → good (op.apply a b) := by
  rw [Env.valuesMet, List.forall_mem_append]
  refine and_congr_right fun _ => ?_
  cases env.eval left with
  | error e => simp
  | ok a =>
      simp only [List.forall_mem_append, Except.ok.injEq, forall_eq']
      refine and_congr_right fun _ => ?_
      cases env.eval right with
      | error e => simp
      | ok b => simp

/-- The values that a run meets, in order. -/
def Context.valuesMet (ctx : Context ν) : Program ν → List ν
  | [] => []
  | s :: p =>
      ctx.env.valuesMet s.value ++
        match ctx.exec s with
        | .error _ => []
        | .ok next => next.valuesMet p

theorem Context.forall_valuesMet_cons {ctx : Context ν} {s : Statement ν} {p : Program ν}
    {good : ν → Prop} :
    (∀ v ∈ ctx.valuesMet (s :: p), good v) ↔
      (∀ v ∈ ctx.env.valuesMet s.value, good v) ∧
        ∀ next, ctx.exec s = .ok next → ∀ v ∈ next.valuesMet p, good v := by
  rw [Context.valuesMet, List.forall_mem_append]
  refine and_congr_right fun _ => ?_
  cases ctx.exec s with
  | error e => simp
  | ok next => simp

end

/-! ## Simulations -/

/-- Two results alike: the same error, or values that are related. -/
inductive Alike {ε α β : Type} (r : α → β → Prop) : Except ε α → Except ε β → Prop where
  | error {e : ε} : Alike r (.error e) (.error e)
  | ok {a : α} {b : β} : r a b → Alike r (.ok a) (.ok b)

theorem Alike.bind {ε α β α' β' : Type} {r : α → β → Prop} {r' : α' → β' → Prop}
    {x : Except ε α} {y : Except ε β} {f : α → Except ε α'} {g : β → Except ε β'}
    (h : Alike r x y) (hnext : ∀ a b, x = .ok a → r a b → Alike r' (f a) (g b)) :
    Alike r' (x >>= f) (y >>= g) := by
  cases h with
  | error => exact .error
  | ok hrel => exact hnext _ _ rfl hrel

variable {ν μ : Type} [NumberSystem ν] [NumberSystem μ]

/-- A correspondence of numbers that programs cannot tell apart, as long as they stay
with good ones. -/
structure Simulation (ν μ : Type) [NumberSystem ν] [NumberSystem μ] where
  /-- The numbers of the first system for which something is promised. -/
  good : ν → Prop
  /-- The correspondence. -/
  rel : ν → μ → Prop
  /-- Operations keep it, if the result is good. -/
  apply {a b : ν} {x y : μ} (op : Operator) : rel a x → rel b y → good (op.apply a b) →
    rel (op.apply a b) (op.apply x y)
  /-- Numbers that correspond are printed alike. -/
  text {a : ν} {x : μ} : rel a x → NumberSystem.text a = NumberSystem.text x

namespace Simulation

variable (sim : Simulation ν μ)

/-- Numbers that correspond, if the first one is good. -/
def Literals (a : ν) (x : μ) : Prop := sim.good a → sim.rel a x

/-- Environments with the same variables and values that correspond. -/
def Envs (env : Env ν) (env' : Env μ) : Prop :=
  ∀ name, Option.Rel sim.rel (env.get? name) (env'.get? name)

/-- Contexts with the same lines and environments that correspond. -/
structure Contexts (ctx : Context ν) (ctx' : Context μ) : Prop where
  env : sim.Envs ctx.env ctx'.env
  printed : ctx.printed = ctx'.printed

variable {sim}

theorem contexts_empty : sim.Contexts Context.empty Context.empty := ⟨fun _ => .none, rfl⟩

theorem Envs.put {env : Env ν} {env' : Env μ} (h : sim.Envs env env') (name : String) {a : ν}
    {x : μ} (hrel : sim.rel a x) : sim.Envs (env.put name a) (env'.put name x) := by
  intro other
  rw [Env.get?_put, Env.get?_put]
  split
  · exact .some hrel
  · exact h other

theorem Envs.get?_cases {env : Env ν} {env' : Env μ} (h : sim.Envs env env') (name : String) :
    (env.get? name = none ∧ env'.get? name = none) ∨
      ∃ a x, env.get? name = some a ∧ env'.get? name = some x ∧ sim.rel a x := by
  have hname := h name
  generalize env.get? name = found at hname ⊢
  generalize env'.get? name = found' at hname ⊢
  cases hname with
  | none => exact Or.inl ⟨rfl, rfl⟩
  | some hrel => exact Or.inr ⟨_, _, rfl, rfl, hrel⟩

/-- Expressions that differ in their numbers have values that correspond, or neither
has a value. -/
theorem eval {env : Env ν} {env' : Env μ} (henv : sim.Envs env env') {e : Expr ν} {e' : Expr μ}
    (he : e.Related sim.Literals e') (hgood : ∀ a ∈ env.valuesMet e, sim.good a) :
    Alike sim.rel (env.eval e) (env'.eval e') := by
  induction he with
  | number h => exact .ok (h (hgood _ (List.mem_singleton_self _)))
  | @var name =>
      rw [Env.eval, Env.eval]
      rcases henv.get?_cases name with ⟨hget, hget'⟩ | ⟨a, x, hget, hget', hrel⟩
      · rw [hget, hget']
        exact .error
      · rw [hget, hget']
        exact .ok hrel
  | @binary op left right left' right' _ _ ihl ihr =>
      obtain ⟨hleft, hrest⟩ := Env.forall_valuesMet_binary.mp hgood
      rw [Env.eval, Env.eval]
      refine (ihl hleft).bind fun a x ha hax => ?_
      obtain ⟨hright, hresult⟩ := hrest a ha
      refine (ihr hright).bind fun b y hb hby => ?_
      exact .ok (sim.apply op hax hby (hresult b hb))

theorem settle {ctx : Context ν} {ctx' : Context μ} (hctx : sim.Contexts ctx ctx')
    {a : ν} {x : μ} (hrel : sim.rel a x) {s : Statement ν} {s' : Statement μ}
    (hs : s.Related sim.Literals s') : Alike sim.Contexts (ctx.settle a s) (ctx'.settle x s') := by
  cases hs with
  | @declare name =>
      rw [Context.settle, Context.settle]
      rcases hctx.env.get?_cases name with ⟨hget, hget'⟩ | ⟨_, _, hget, hget', _⟩
      · rw [hget, hget']
        exact .ok ⟨hctx.env.put name hrel, hctx.printed⟩
      · rw [hget, hget']
        exact .error
  | @assign name =>
      rw [Context.settle, Context.settle]
      rcases hctx.env.get?_cases name with ⟨hget, hget'⟩ | ⟨_, _, hget, hget', _⟩
      · rw [hget, hget']
        exact .error
      · rw [hget, hget']
        exact .ok ⟨hctx.env.put name hrel, hctx.printed⟩
  | print =>
      refine .ok ⟨hctx.env, ?_⟩
      rw [sim.text hrel, hctx.printed]

/-- One statement keeps the correspondence, or fails on both sides alike. -/
theorem exec {ctx : Context ν} {ctx' : Context μ} (hctx : sim.Contexts ctx ctx')
    {s : Statement ν} {s' : Statement μ} (hs : s.Related sim.Literals s')
    (hgood : ∀ a ∈ ctx.env.valuesMet s.value, sim.good a) :
    Alike sim.Contexts (ctx.exec s) (ctx'.exec s') := by
  rw [Context.exec_eq, Context.exec_eq]
  refine (eval hctx.env hs.value hgood).bind fun a x _ hrel => ?_
  exact settle hctx hrel hs

/-- A run keeps the correspondence, and it ends on both sides alike. -/
theorem run {ctx : Context ν} {ctx' : Context μ} (hctx : sim.Contexts ctx ctx')
    {p : Program ν} {q : Program μ} (hp : Program.Related sim.Literals p q)
    (hgood : ∀ a ∈ ctx.valuesMet p, sim.good a) :
    sim.Contexts (ctx.run p).1 (ctx'.run q).1 ∧ (ctx.run p).2 = (ctx'.run q).2 := by
  induction hp generalizing ctx ctx' with
  | nil => exact ⟨hctx, rfl⟩
  | @cons s s' p q hs _ ih =>
      obtain ⟨hvalue, hrest⟩ := Context.forall_valuesMet_cons.mp hgood
      have hstep := exec hctx hs hvalue
      rw [Context.run, Context.run]
      generalize ctx.exec s = result at hstep hrest ⊢
      generalize ctx'.exec s' = result' at hstep ⊢
      cases hstep with
      | error => exact ⟨hctx, rfl⟩
      | ok hnext => exact ih hnext (hrest _ rfl)

end Simulation

end SumScript
