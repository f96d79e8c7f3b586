import SumScript.Context
import SumScript.Proofs.Program.Grammar
import SumScript.Proofs.Token.Layout

/-!
# Chains of operands

The tokens of a chain are read into a tree that leans to the left, and an evaluation
of the tree goes down to the first operand and comes back up.  In all it is one pass
over the tokens: `Env.accumulate` goes from operand to operand and keeps nothing but
the value so far.

The parser's loop holds a tree where the pass holds a value.  At every operand the
value of the tree is the value so far, so the loop ends with a tree whose value is
that of the pass (`Expr.parseChain_links`).  The pass fails at the first operand that
has no value, and otherwise folds the operations from the left
(`Env.accumulate_cases`).
-/

namespace SumScript

/-! ## Chains -/

/-- A token that is an operand: a run of digits, or a name. -/
def Token.WritesOperand (token : Token) : Prop :=
  (token.kind = .number ∧ IsNumeral token.text.toList) ∨ token.kind = .identifier

/-- An operation and its right operand, as they are written. -/
structure Link where
  /-- The operation. -/
  op : Operator
  /-- Its sign. -/
  sign : Token
  /-- The right operand. -/
  operand : Token
  sign_kind : sign.kind = op.kind
  writesOperand : operand.WritesOperand

/-- An operand with operations after it. -/
structure Chain where
  /-- The first operand. -/
  first : Token
  /-- The operations, from left to right. -/
  links : List Link
  writesOperand : first.WritesOperand

/-- The tokens of a link. -/
def Link.tokens (link : Link) : List Token := [link.sign, link.operand]

/-- The tokens of a chain. -/
def Chain.tokens (chain : Chain) : List Token := chain.first :: chain.links.flatMap Link.tokens

/-- The operands of a chain, from left to right. -/
def Chain.operands (chain : Chain) : List Token := chain.first :: chain.links.map Link.operand

variable {ν : Type}

/-- Whether a token is the name of a variable that does not exist. -/
def Env.lacks (env : Env ν) (token : Token) : Bool :=
  token.kind = .identifier && (env.get? token.text).isNone

variable [NumberSystem ν]

/-- The value of an operand: the number that it denotes, or the value of the variable. -/
def Env.operand? (env : Env ν) (token : Token) : Option ν :=
  if token.kind = .number then literal? ν token.text else env.get? token.text

/-- The value of an operand, or the error that there is no such variable. -/
def Env.valueOf (env : Env ν) (token : Token) : Except RuntimeError ν :=
  match env.operand? token with
  | some value => .ok value
  | none => .error (.undeclared token.text)

/-- Goes over the links of a chain with the value so far. -/
def Env.accumulate (env : Env ν) (value : ν) : List Link → Except RuntimeError ν
  | [] => .ok value
  | link :: links => do
      let right ← env.valueOf link.operand
      env.accumulate (link.op.apply value right) links

/-- Goes over a chain from its first operand on. -/
def Env.scanChain (env : Env ν) (chain : Chain) : Except RuntimeError ν := do
  let first ← env.valueOf chain.first
  env.accumulate first chain.links

/-! ## Trees and values -/

theorem exists_literal_of_isNumeral {text : String} (h : IsNumeral text.toList) :
    ∃ value, literal? ν text = some value := by
  have hvalue : literalValue? text = some (Nat.ofDigitChars 10 text.toList 0) :=
    if_pos ⟨h.1, List.all_eq_true.mpr h.2⟩
  exact ⟨_, congrArg (Option.map _) hvalue⟩

/-- An operand is read as a leaf with its value. -/
theorem Token.WritesOperand.exists_operand {token : Token} (h : token.WritesOperand) :
    ∃ e : Expr ν, Operand e token ∧ ∀ env : Env ν, env.eval e = env.valueOf token := by
  rcases h with ⟨hkind, hnumeral⟩ | hkind
  · obtain ⟨value, hvalue⟩ := exists_literal_of_isNumeral (ν := ν) hnumeral
    refine ⟨.number value, .number hkind hvalue, fun env => ?_⟩
    simp [Env.valueOf, Env.operand?, hkind, hvalue, Env.eval]
  · refine ⟨.var token.text, .var hkind, fun env => ?_⟩
    cases hget : env.get? token.text with
    | none => simp [Env.valueOf, Env.operand?, hkind, hget, Env.eval]
    | some value => simp [Env.valueOf, Env.operand?, hkind, hget, Env.eval]

/-- The parser's loop goes over the links and ends with a tree.  The value of the tree
is found by going over the same links from the value that the tree had before. -/
theorem Expr.parseChain_links (left : Expr ν) (links : List Link) {rest : List Token}
    (hrest : NoSign rest) :
    ∃ e : Expr ν, Expr.parseChain left (links.flatMap Link.tokens ++ rest) = (.ok e, rest) ∧
      ∀ env : Env ν, env.eval e = env.eval left >>= fun value => env.accumulate value links := by
  induction links generalizing left with
  | nil =>
      refine ⟨left, Expr.parseChain_of_noSign left hrest, fun env => ?_⟩
      cases env.eval left with
      | error e => rfl
      | ok value => rfl
  | cons link links ih =>
      obtain ⟨right, hright, hvalueOf⟩ := link.writesOperand.exists_operand (ν := ν)
      obtain ⟨e, hparse, heval⟩ := ih (.binary link.op left right)
      refine ⟨e, ?_, fun env => ?_⟩
      · have hop := Operator.ofKind?_eq_some_iff.mpr link.sign_kind
        have hofToken := Expr.ofToken_eq_ok_iff.mpr hright
        simpa [Link.tokens, Expr.parseChain, hop, hofToken] using hparse
      · simp only [heval, Env.eval, hvalueOf, Env.accumulate]
        cases env.eval left with
        | error e => rfl
        | ok value =>
            cases env.valueOf link.operand with
            | error e => rfl
            | ok right => rfl

theorem Expr.parse_tokens (chain : Chain) {rest : List Token} (hrest : NoSign rest) :
    ∃ e : Expr ν, Expr.parse (chain.tokens ++ rest) = (.ok e, rest) ∧
      ∀ env : Env ν, env.eval e = env.scanChain chain := by
  obtain ⟨first, hfirst, hvalueOf⟩ := chain.writesOperand.exists_operand (ν := ν)
  obtain ⟨e, hparse, heval⟩ := Expr.parseChain_links first chain.links hrest
  refine ⟨e, ?_, fun env => ?_⟩
  · exact ((Expr.Derives.operand hfirst).parse_append _).trans hparse
  · rw [heval, hvalueOf, Env.scanChain]

/-! ## The value of a chain -/

/-- An operand has a value unless it is the name of a variable that does not exist. -/
theorem Token.WritesOperand.operand?_cases {token : Token} (h : token.WritesOperand)
    (env : Env ν) :
    (env.lacks token = true ∧ env.operand? token = none) ∨
      (env.lacks token = false ∧ ∃ value, env.operand? token = some value) := by
  rcases h with ⟨hkind, hnumeral⟩ | hkind
  · refine Or.inr ⟨by simp [Env.lacks, hkind], ?_⟩
    simpa [Env.operand?, hkind] using exists_literal_of_isNumeral hnumeral
  · cases hget : env.get? token.text with
    | none => exact Or.inl (by simp [Env.lacks, Env.operand?, hkind, hget])
    | some value => exact Or.inr (by simp [Env.lacks, Env.operand?, hkind, hget])

/-- The values of the right operands, one for each link. -/
def Env.Values (env : Env ν) : List Link → List ν → Prop :=
  List.Forall₂ fun link value => env.operand? link.operand = some value

/-- The operations of a chain applied one after the other, from the left. -/
def applyLinks (first : ν) (links : List Link) (values : List ν) : ν :=
  (links.zip values).foldl (fun value step => step.1.op.apply value step.2) first

theorem Env.accumulate_cases (env : Env ν) (value : ν) (links : List Link) :
    match (links.map Link.operand).find? env.lacks with
    | some token => env.accumulate value links = .error (.undeclared token.text)
    | none => ∃ values, env.Values links values ∧
        env.accumulate value links = .ok (applyLinks value links values) := by
  induction links generalizing value with
  | nil => exact ⟨[], .nil, rfl⟩
  | cons link links ih =>
      rw [List.map_cons, Env.accumulate, Env.valueOf]
      rcases link.writesOperand.operand?_cases env with ⟨hlacks, hnone⟩ | ⟨hlacks, right, hright⟩
      · rw [List.find?_cons_of_pos hlacks, hnone]
        rfl
      · have hrest := ih (link.op.apply value right)
        rw [List.find?_cons_of_neg (by simp [hlacks]), hright]
        cases hfind : (links.map Link.operand).find? env.lacks with
        | some token =>
            rw [hfind] at hrest
            exact hrest
        | none =>
            rw [hfind] at hrest
            obtain ⟨values, hvalues, haccumulate⟩ := hrest
            exact ⟨right :: values, .cons hright hvalues, haccumulate⟩

/-- A chain is read, whatever follows it that is not a sign, and its value is that of one
pass over its operands.  The pass fails at the first operand that names a variable that
does not exist.  If there is none, all operands have values, and the operations are
applied to them from left to right. -/
theorem Expr.parse_chain (chain : Chain) (rest : List Token) (hrest : NoSign rest) :
    ∃ e : Expr ν, Expr.parse (chain.tokens ++ rest) = (.ok e, rest) ∧
      ∀ ctx : Context ν, ctx.env.eval e = ctx.env.scanChain chain ∧
        match chain.operands.find? ctx.env.lacks with
        | some token => ctx.env.eval e = .error (.undeclared token.text)
        | none => ∃ first values, ctx.env.operand? chain.first = some first ∧
            ctx.env.Values chain.links values ∧
            ctx.env.eval e = .ok (applyLinks first chain.links values) := by
  obtain ⟨e, hparse, heval⟩ := Expr.parse_tokens (ν := ν) chain hrest
  refine ⟨e, hparse, fun ctx => ⟨heval ctx.env, ?_⟩⟩
  rw [heval ctx.env, Chain.operands, Env.scanChain, Env.valueOf]
  rcases chain.writesOperand.operand?_cases ctx.env with ⟨hlacks, hnone⟩ | ⟨hlacks, first, hfirst⟩
  · rw [List.find?_cons_of_pos hlacks, hnone]
    rfl
  · have hlinks := ctx.env.accumulate_cases first chain.links
    rw [List.find?_cons_of_neg (by simp [hlacks]), hfirst]
    cases hfind : (chain.links.map Link.operand).find? ctx.env.lacks with
    | some token =>
        rw [hfind] at hlinks
        exact hlinks
    | none =>
        rw [hfind] at hlinks
        obtain ⟨values, hvalues, haccumulate⟩ := hlinks
        exact ⟨first, values, rfl, hvalues, haccumulate⟩

/-- The greatest of the numbers up to which nothing is rounded, with two names after it. -/
def roundedChain : Chain where
  first := ⟨.number, "9007199254740992", ⟨1, 1⟩⟩
  links := [⟨.add, ⟨.plus, "+", ⟨1, 18⟩⟩, ⟨.identifier, "x", ⟨1, 20⟩⟩, rfl, Or.inr rfl⟩,
    ⟨.add, ⟨.plus, "+", ⟨1, 22⟩⟩, ⟨.identifier, "y", ⟨1, 24⟩⟩, rfl, Or.inr rfl⟩]
  writesOperand := Or.inl ⟨rfl, by decide, List.all_eq_true.mp (by decide)⟩

/-- Ones that are added one by one are lost, and the sum of the ones is not. -/
theorem Expr.parse_roundedChain :
    ∃ e : Expr Double, Expr.parse (roundedChain.tokens ++ [⟨.semicolon, ";", ⟨1, 25⟩⟩]) =
        (.ok e, [⟨.semicolon, ";", ⟨1, 25⟩⟩]) ∧
      Env.eval ⟨[("x", .ofNat 1), ("y", .ofNat 1)]⟩ e = .ok (.ofNat 9007199254740992) ∧
      (Double.ofNat 9007199254740992).add ((Double.ofNat 1).add (.ofNat 1)) =
        .ofNat 9007199254740994 ∧
      Env.eval ⟨[("x", .ofNat 1)]⟩ e = .error (.undeclared "y") ∧
      Env.eval ⟨[]⟩ e = .error (.undeclared "x") := by
  obtain ⟨e, hparse, heval⟩ := Expr.parse_chain (ν := Double) roundedChain
    [⟨.semicolon, ";", ⟨1, 25⟩⟩] (noSign_cons rfl rfl [])
  refine ⟨e, hparse, ?_, by decide +kernel, ?_, ?_⟩
  · rw [(heval ⟨⟨[("x", .ofNat 1), ("y", .ofNat 1)]⟩, []⟩).1]
    decide +kernel
  · exact (heval ⟨⟨[("x", .ofNat 1)]⟩, []⟩).2
  · exact (heval ⟨⟨[]⟩, []⟩).2

end SumScript
