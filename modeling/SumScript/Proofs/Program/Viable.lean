import SumScript.Proofs.Program.Grammar

/-!
# Where reading a program fails

A list of tokens is *complete* if it begins with a program and an end marker, and
*viable* if something can be added to make it complete.  The parser stops at the
first token that ends viability, and it names that token.

Both notions speak of all continuations of a list.  A small machine makes them
local.  It stands at a `Place` in the grammar and moves over one token at a
time, or is stuck at it.  From every place the end can still be reached
(`Place.walk_completion`), so a list is viable exactly if the machine walks over
it (`viable_iff_walk`).  The parser and the machine fail alike
(`verdict_eq_ofTokens`), since each parser takes the machine from one place to
another (`Parser.Moves`).  What is left to show about an error is then a matter
of a single step (`Place.step_error`).
-/

namespace SumScript

/-! ## Complete and viable lists -/

/-- The tokens begin with a program and an end marker. -/
def Complete (ν : Type) [NumberSystem ν] (tokens : List Token) : Prop :=
  ∃ p : Program ν, Program.Accepted p tokens

/-- The tokens are the beginning of a complete list. -/
def Viable (ν : Type) [NumberSystem ν] (tokens : List Token) : Prop :=
  ∃ more, Complete ν (tokens ++ more)

/-! ## Places -/

/-- What may come next in a list of tokens.  The flag tells whether the statement
at hand is a print statement. -/
inductive Place where
  /-- A statement or the end marker. -/
  | statement
  /-- The name in a declaration. -/
  | name
  /-- The sign `=`. -/
  | equals
  /-- The left parenthesis. -/
  | leftParen
  /-- An operand. -/
  | operand (printing : Bool)
  /-- A sign with another operand, or what comes after an expression. -/
  | chain (printing : Bool)
  /-- The right parenthesis, or the semicolon. -/
  | close (printing : Bool)
  /-- Anything: the end marker is past. -/
  | finished
deriving DecidableEq

/-- Whether a token can stand as an operand. -/
def Token.isOperand (token : Token) : Bool :=
  token.kind = .identifier || (token.kind = .number && (literalValue? token.text).isSome)

/-- The step over a token of which only one kind can stand here. -/
def Place.stepExpected (kind : TokenKind) (next : Place) (token : Token) :
    Except ParseError Place :=
  if token.kind = kind then .ok next else .error (.expected kind token.text token.position)

/-- The step that closes an expression. -/
def Place.stepClose : Bool → Token → Except ParseError Place
  | true => stepExpected .rightParen (.close false)
  | false => stepExpected .semicolon .statement

/-- The place after a token, or the error that it cannot stand here. -/
def Place.step : Place → Token → Except ParseError Place
  | .statement, token =>
      match token.kind with
      | .new => .ok .name
      | .print => .ok .leftParen
      | .identifier => .ok .equals
      | .endOfInput => .ok .finished
      | _ => .error token.unexpected
  | .name, token => stepExpected .identifier .equals token
  | .equals, token => stepExpected .equals (.operand false) token
  | .leftParen, token => stepExpected .leftParen (.operand true) token
  | .operand printing, token =>
      if token.isOperand then .ok (.chain printing) else .error token.unexpected
  | .chain printing, token =>
      if (Operator.ofKind? token.kind).isSome then .ok (.operand printing)
      else stepClose printing token
  | .close printing, token => stepClose printing token
  | .finished, _ => .ok .finished

/-- The place after some tokens, or the error at the first that cannot stand. -/
def Place.walk (place : Place) : List Token → Except ParseError Place
  | [] => .ok place
  | token :: tokens =>
      match place.step token with
      | .error e => .error e
      | .ok next => next.walk tokens

/-- Whether the end marker is reached over some tokens, and the error if it is not. -/
def Place.verdict (place : Place) (tokens : List Token) : Except ParseError Unit :=
  match place.walk tokens with
  | .error e => .error e
  | .ok .finished => .ok ()
  | .ok _ => .error .endOfTokens

theorem Place.walk_append (place : Place) (first second : List Token) :
    place.walk (first ++ second) =
      match place.walk first with
      | .error e => .error e
      | .ok next => next.walk second := by
  induction first generalizing place with
  | nil => rfl
  | cons token first ih =>
      rw [List.cons_append, Place.walk, Place.walk]
      cases place.step token with
      | error e => rfl
      | ok next => exact ih next

theorem Place.walk_concat {place next : Place} {tokens : List Token}
    (h : place.walk tokens = .ok next) (token : Token) :
    place.walk (tokens ++ [token]) = next.step token := by
  rw [Place.walk_append, h]
  cases hstep : next.step token with
  | error e => simp [Place.walk, hstep]
  | ok last => simp [Place.walk, hstep]

theorem Place.verdict_cons (place : Place) (token : Token) (tokens : List Token) :
    place.verdict (token :: tokens) =
      match place.step token with
      | .error e => .error e
      | .ok next => next.verdict tokens := by
  rw [Place.verdict, Place.walk]
  cases place.step token with
  | error e => rfl
  | ok next => rfl

theorem Place.verdict_of_step {place next : Place} {token : Token}
    (h : place.step token = .ok next) (tokens : List Token) :
    place.verdict (token :: tokens) = next.verdict tokens := by
  rw [Place.verdict_cons, h]

theorem Place.verdict_of_error {place : Place} {token : Token} {e : ParseError}
    (h : place.step token = .error e) (tokens : List Token) :
    place.verdict (token :: tokens) = .error e := by
  rw [Place.verdict_cons, h]

theorem Place.walk_finished (tokens : List Token) :
    Place.finished.walk tokens = .ok .finished := by
  induction tokens with
  | nil => rfl
  | cons token tokens ih => exact ih

theorem Place.verdict_eq_ok_iff {place : Place} {tokens : List Token} :
    place.verdict tokens = .ok () ↔ place.walk tokens = .ok .finished := by
  rw [Place.verdict]
  cases place.walk tokens with
  | error e => simp
  | ok next => cases next <;> simp

/-! ## The parser and the machine -/

/-- On these tokens the parser takes the machine from one place to another: what
the machine says of the tokens is the error of the parser, or what it says of
the tokens that the parser leaves. -/
def Parser.MovesAt {α : Type} (p : Parser α) (place next : Place) (tokens : List Token) : Prop :=
  place.verdict tokens =
    match p tokens with
    | (.error e, _) => .error e
    | (.ok _, rest) => next.verdict rest

/-- The parser takes the machine from one place to another. -/
def Parser.Moves {α : Type} (p : Parser α) (place next : Place) : Prop :=
  ∀ tokens, p.MovesAt place next tokens

theorem Parser.MovesAt.of_error {α : Type} {p : Parser α} {place next : Place}
    {tokens rest : List Token} {e : ParseError} (h : place.verdict tokens = .error e)
    (hp : p tokens = (.error e, rest)) : p.MovesAt place next tokens := by
  rw [Parser.MovesAt, h, hp]

theorem Parser.MovesAt.of_ok {α : Type} {p : Parser α} {place next : Place}
    {tokens rest : List Token} {a : α} (h : place.verdict tokens = next.verdict rest)
    (hp : p tokens = (.ok a, rest)) : p.MovesAt place next tokens := by
  rw [Parser.MovesAt, h, hp]

/-- A parser that goes on as another one does moves as that one. -/
theorem Parser.MovesAt.of_eq {α : Type} {p q : Parser α} {first second next : Place}
    {tokens tokens' : List Token} (h : q.MovesAt second next tokens')
    (hplace : first.verdict tokens = second.verdict tokens') (hp : p tokens = q tokens') :
    p.MovesAt first next tokens := by
  rw [Parser.MovesAt, hplace, hp]
  exact h

theorem Parser.MovesAt.bind {α β : Type} {p : Parser α} {f : α → Parser β}
    {first second third : Place} {tokens : List Token} (hp : p.MovesAt first second tokens)
    (hf : ∀ a, (f a).Moves second third) : Parser.MovesAt (p >>= f) first third tokens := by
  rw [Parser.MovesAt] at hp
  rcases heq : p tokens with ⟨e | a, rest⟩
  · rw [heq] at hp
    exact .of_error hp (Parser.bind_of_error heq)
  · rw [heq] at hp
    rw [Parser.MovesAt, hp, Parser.bind_of_ok heq]
    exact hf a rest

theorem Parser.Moves.bind {α β : Type} {p : Parser α} {f : α → Parser β}
    {first second third : Place} (hp : p.Moves first second)
    (hf : ∀ a, (f a).Moves second third) : Parser.Moves (p >>= f) first third :=
  fun tokens => (hp tokens).bind hf

theorem Parser.Moves.pure {α : Type} (a : α) (place : Place) :
    Parser.Moves (Pure.pure a : Parser α) place place :=
  fun _ => rfl

theorem movesAt_expect {kind : TokenKind} {place next : Place} {token : Token}
    (hkind : token.kind = kind) (hstep : place.step token = .ok next) (rest : List Token) :
    (expect kind).MovesAt place next (token :: rest) :=
  .of_ok (Place.verdict_of_step hstep rest) (expect_cons hkind rest)

theorem moves_expect {kind : TokenKind} {place next : Place}
    (hstep : ∀ token, place.step token = Place.stepExpected kind next token)
    (hend : place.verdict [] = .error .endOfTokens) : (expect kind).Moves place next := by
  intro tokens
  cases tokens with
  | nil => exact hend
  | cons token rest =>
      by_cases hkind : token.kind = kind
      · exact movesAt_expect hkind ((hstep token).trans (if_pos hkind)) rest
      · have herror := (hstep token).trans (if_neg hkind)
        exact .of_error (Place.verdict_of_error herror rest) (expect_of_ne hkind rest)

theorem moves_name : (expect .identifier).Moves .name .equals :=
  moves_expect (fun _ => rfl) rfl

theorem moves_equals : (expect .equals).Moves .equals (.operand false) :=
  moves_expect (fun _ => rfl) rfl

theorem moves_leftParen : (expect .leftParen).Moves .leftParen (.operand true) :=
  moves_expect (fun _ => rfl) rfl

theorem moves_rightParen : (expect .rightParen).Moves (.close true) (.close false) :=
  moves_expect (fun _ => rfl) rfl

theorem moves_semicolon : (expect .semicolon).Moves (.close false) .statement :=
  moves_expect (fun _ => rfl) rfl

section

variable {ν : Type} [NumberSystem ν]

theorem Expr.exists_ofToken {token : Token} (h : token.isOperand) :
    ∃ e : Expr ν, Expr.ofToken token = .ok e := by
  simp only [Token.isOperand, Bool.or_eq_true, Bool.and_eq_true, decide_eq_true_eq,
    Option.isSome_iff_exists] at h
  rcases h with hkind | ⟨hkind, n, hn⟩
  · exact ⟨.var token.text, by simp [Expr.ofToken, hkind]⟩
  · exact ⟨.number (NumberSystem.ofNat n), by simp [Expr.ofToken, hkind, literal?, hn]⟩

theorem Expr.ofToken_of_not_isOperand {token : Token} (h : ¬ token.isOperand) :
    (Expr.ofToken token : Except ParseError (Expr ν)) = .error token.unexpected := by
  simp only [Token.isOperand, Bool.or_eq_true, Bool.and_eq_true, decide_eq_true_eq, not_or,
    not_and, Bool.not_eq_true, Option.isSome_eq_false_iff, Option.isNone_iff_eq_none] at h
  obtain ⟨hname, hnumber⟩ := h
  unfold Expr.ofToken
  split
  next hkind => simp [literal?, hnumber hkind]
  next hkind => exact absurd hkind hname
  next => rfl

theorem Expr.moves_parseOperand (printing : Bool) :
    Parser.Moves (Expr.parseOperand : Parser (Expr ν)) (.operand printing) (.chain printing) := by
  intro tokens
  cases tokens with
  | nil => rfl
  | cons token rest =>
      by_cases hoperand : token.isOperand
      · obtain ⟨e, he⟩ := Expr.exists_ofToken (ν := ν) hoperand
        have hstep : (Place.operand printing).step token = .ok (.chain printing) := by
          simp [Place.step, hoperand]
        exact .of_ok (Place.verdict_of_step hstep rest) (Prod.ext he rfl)
      · have hstep : (Place.operand printing).step token = .error token.unexpected := by
          simp [Place.step, hoperand]
        exact .of_error (Place.verdict_of_error hstep rest)
          (Prod.ext (Expr.ofToken_of_not_isOperand hoperand) rfl)

/-- The machine takes two steps for each operand that the chain goes on with. -/
theorem Expr.moves_parseChain (left : Expr ν) (printing : Bool) :
    Parser.Moves (Expr.parseChain left) (.chain printing) (.close printing) := by
  have sign : ∀ {sign : Token} {op : Operator}, Operator.ofKind? sign.kind = some op →
      ∀ rest, (Place.chain printing).verdict (sign :: rest) =
        (Place.operand printing).verdict rest := by
    intro sign op hop rest
    exact Place.verdict_of_step (by simp [Place.step, hop]) rest
  intro tokens
  induction left, tokens using Expr.parseChain.induct with
  | case1 left => exact .of_ok rfl rfl
  | case2 left token rest hop =>
      have hstep : (Place.chain printing).step token = (Place.close printing).step token := by
        simp [Place.step, hop]
      have hverdict : (Place.chain printing).verdict (token :: rest) =
          (Place.close printing).verdict (token :: rest) := by
        rw [Place.verdict_cons, Place.verdict_cons, hstep]
      have hparse : Expr.parseChain left (token :: rest) = (.ok left, token :: rest) := by
        simp [Expr.parseChain, hop]
      exact .of_ok hverdict hparse
  | case3 left first op hop =>
      have hparse : Expr.parseChain left [first] = (.error .endOfTokens, []) := by
        simp [Expr.parseChain, hop]
      exact .of_error (sign hop []) hparse
  | case4 left first op hop token rest e htoken =>
      have hoperand : (Place.operand printing).verdict (token :: rest) = .error e := by
        rw [Expr.moves_parseOperand (ν := ν), Expr.parseOperand, htoken]
      have hparse : Expr.parseChain left (first :: token :: rest) = (.error e, rest) := by
        simp [Expr.parseChain, hop, htoken]
      exact .of_error ((sign hop _).trans hoperand) hparse
  | case5 left first op hop token rest right htoken ih =>
      have hoperand : (Place.operand printing).verdict (token :: rest) =
          (Place.chain printing).verdict rest := by
        rw [Expr.moves_parseOperand (ν := ν), Expr.parseOperand, htoken]
      have hparse : Expr.parseChain left (first :: token :: rest) =
          Expr.parseChain (.binary op left right) rest := by
        simp [Expr.parseChain, hop, htoken]
      exact ih.of_eq ((sign hop _).trans hoperand) hparse

theorem Expr.moves_parse (printing : Bool) :
    Parser.Moves (Expr.parse : Parser (Expr ν)) (.operand printing) (.close printing) :=
  .bind (Expr.moves_parseOperand printing) fun first => Expr.moves_parseChain first printing

theorem Statement.movesAt_parseDeclare {token : Token} (h : token.kind = .new)
    (tail : List Token) :
    Parser.MovesAt (Statement.parseDeclare : Parser (Statement ν)) .statement .statement
      (token :: tail) := by
  have hstep : Place.statement.step token = .ok .name := by simp [Place.step, h]
  refine .bind (movesAt_expect h hstep tail) fun _ => ?_
  exact .bind moves_name fun _ => .bind moves_equals fun _ =>
    .bind (Expr.moves_parse false) fun _ => .bind moves_semicolon fun _ => .pure _ _

theorem Statement.movesAt_parseAssign {token : Token} (h : token.kind = .identifier)
    (tail : List Token) :
    Parser.MovesAt (Statement.parseAssign : Parser (Statement ν)) .statement .statement
      (token :: tail) := by
  have hstep : Place.statement.step token = .ok .equals := by simp [Place.step, h]
  refine .bind (movesAt_expect h hstep tail) fun _ => ?_
  exact .bind moves_equals fun _ => .bind (Expr.moves_parse false) fun _ =>
    .bind moves_semicolon fun _ => .pure _ _

theorem Statement.movesAt_parsePrint {token : Token} (h : token.kind = .print)
    (tail : List Token) :
    Parser.MovesAt (Statement.parsePrint : Parser (Statement ν)) .statement .statement
      (token :: tail) := by
  have hstep : Place.statement.step token = .ok .leftParen := by simp [Place.step, h]
  refine .bind (movesAt_expect h hstep tail) fun _ => ?_
  exact .bind moves_leftParen fun _ => .bind (Expr.moves_parse true) fun _ =>
    .bind moves_rightParen fun _ => .bind moves_semicolon fun _ => .pure _ _

/-- A statement leads from the place before it to the same place after it.  Only at
the end marker the machine goes on and the parser of statements does not. -/
theorem Statement.movesAt_parse {token : Token} (h : token.kind ≠ .endOfInput)
    (tail : List Token) :
    Parser.MovesAt (Statement.parse : Parser (Statement ν)) .statement .statement
      (token :: tail) := by
  cases hkind : token.kind with
  | new =>
      exact (Statement.movesAt_parseDeclare hkind tail).of_eq rfl (by simp [Statement.parse, hkind])
  | print =>
      exact (Statement.movesAt_parsePrint hkind tail).of_eq rfl (by simp [Statement.parse, hkind])
  | identifier =>
      exact (Statement.movesAt_parseAssign hkind tail).of_eq rfl (by simp [Statement.parse, hkind])
  | endOfInput => exact absurd hkind h
  | number | equals | plus | minus | semicolon | leftParen | rightParen =>
      have hstep : Place.statement.step token = .error token.unexpected := by
        simp [Place.step, hkind]
      have hparse : (Statement.parse : Parser (Statement ν)) (token :: tail) =
          (.error token.unexpected, token :: tail) := by
        simp [Statement.parse, hkind]
      exact .of_error (Place.verdict_of_error hstep tail) hparse

theorem Program.verdict_parseFrom (done : List (Statement ν)) (tokens : List Token) :
    Place.statement.verdict tokens = (Program.parseFrom done tokens).1.map fun _ => () := by
  fun_induction Program.parseFrom done tokens with
  | case1 => rfl
  | case2 done token rest hkind =>
      have hstep : Place.statement.step token = .ok .finished := by simp [Place.step, hkind]
      rw [Place.verdict_of_step hstep]
      exact Place.verdict_eq_ok_iff.mpr (Place.walk_finished rest)
  | case3 done token tail hkind e rest hparse =>
      rw [Statement.movesAt_parse (ν := ν) hkind tail, hparse]
      rfl
  | case4 done token tail hkind s rest hparse ih =>
      rw [Statement.movesAt_parse (ν := ν) hkind tail, hparse]
      exact ih

/-- The parser and the machine fail alike. -/
theorem verdict_eq_ofTokens (tokens : List Token) :
    Place.statement.verdict tokens =
      (Program.ofTokens tokens : Except ParseError (Program ν)).map fun _ => () :=
  Program.verdict_parseFrom [] tokens

theorem complete_iff_verdict {tokens : List Token} :
    Complete ν tokens ↔ Place.statement.verdict tokens = .ok () := by
  rw [verdict_eq_ofTokens (ν := ν)]
  constructor
  · rintro ⟨p, hp⟩
    rw [Program.ofTokens_eq_ok_iff.mpr hp]
    rfl
  · intro h
    cases hread : (Program.ofTokens tokens : Except ParseError (Program ν)) with
    | error e => rw [hread] at h; cases h
    | ok p => exact ⟨p, Program.ofTokens_eq_ok_iff.mp hread⟩

end

/-! ## Viable lists -/

/-- Some token of a kind. -/
def Token.ofKind (kind : TokenKind) : Token := ⟨kind, "", ⟨1, 1⟩⟩

/-- Tokens that end the statement after its expression, and the end marker. -/
def Place.closing : Bool → List Token
  | true => [.ofKind .rightParen, .ofKind .semicolon, .ofKind .endOfInput]
  | false => [.ofKind .semicolon, .ofKind .endOfInput]

/-- Tokens that lead from a place to the end. -/
def Place.completion : Place → List Token
  | .statement => [.ofKind .endOfInput]
  | .name => .ofKind .identifier :: .ofKind .equals :: .ofKind .identifier :: closing false
  | .equals => .ofKind .equals :: .ofKind .identifier :: closing false
  | .leftParen => .ofKind .leftParen :: .ofKind .identifier :: closing true
  | .operand printing => .ofKind .identifier :: closing printing
  | .chain printing => closing printing
  | .close printing => closing printing
  | .finished => []

theorem Place.walk_completion (place : Place) : place.walk place.completion = .ok .finished := by
  cases place with
  | statement | name | equals | leftParen | finished => rfl
  | operand printing | chain printing | close printing => cases printing <;> rfl

section

variable {ν : Type} [NumberSystem ν]

theorem viable_iff_walk {tokens : List Token} :
    Viable ν tokens ↔ ∃ place, Place.statement.walk tokens = .ok place := by
  constructor
  · rintro ⟨more, hcomplete⟩
    have hwalk := Place.verdict_eq_ok_iff.mp (complete_iff_verdict.mp hcomplete)
    rw [Place.walk_append] at hwalk
    cases htokens : Place.statement.walk tokens with
    | error e => rw [htokens] at hwalk; cases hwalk
    | ok place => exact ⟨place, rfl⟩
  · rintro ⟨place, hwalk⟩
    refine ⟨place.completion, complete_iff_verdict.mpr (Place.verdict_eq_ok_iff.mpr ?_)⟩
    rw [Place.walk_append, hwalk]
    exact place.walk_completion

theorem Viable.of_append {first second : List Token} (h : Viable ν (first ++ second)) :
    Viable ν first := by
  obtain ⟨more, hcomplete⟩ := h
  rw [List.append_assoc] at hcomplete
  exact ⟨second ++ more, hcomplete⟩

end

/-! ## Errors -/

/-- The kinds that are expected by name. -/
def expectedKinds : List TokenKind := [.identifier, .equals, .leftParen, .rightParen, .semicolon]

/-- `place.Blames token e`: the error names the token, and if it names a kind as
well, the token is not of that kind and every token of that kind could stand in
its place. -/
inductive Place.Blames (place : Place) (token : Token) : ParseError → Prop where
  | unexpected : Blames place token (.unexpected token.text token.position)
  | expected {kind : TokenKind} : kind ∈ expectedKinds → token.kind ≠ kind →
      (∀ other : Token, other.kind = kind → ∃ next, place.step other = .ok next) →
      Blames place token (.expected kind token.text token.position)

theorem Place.Blames.of_stepExpected {place next : Place} {token : Token} {kind : TokenKind}
    {e : ParseError} (hkind : kind ∈ expectedKinds)
    (hstep : ∀ other : Token, other.kind = kind → place.step other = .ok next)
    (h : Place.stepExpected kind next token = .error e) : place.Blames token e := by
  unfold Place.stepExpected at h
  split at h
  next => cases h
  next hne =>
    cases h
    exact .expected hkind hne fun other hother => ⟨next, hstep other hother⟩

theorem Place.stepClose_error {place : Place} {printing : Bool} {token : Token} {e : ParseError}
    (hplace : ∀ other : Token, Operator.ofKind? other.kind = none →
      place.step other = Place.stepClose printing other)
    (h : Place.stepClose printing token = .error e) : place.Blames token e := by
  cases printing with
  | true =>
      refine .of_stepExpected (by decide) (fun other hother => ?_) h
      rw [hplace other (by rw [hother]; rfl)]
      exact if_pos hother
  | false =>
      refine .of_stepExpected (by decide) (fun other hother => ?_) h
      rw [hplace other (by rw [hother]; rfl)]
      exact if_pos hother

/-- A step that fails names the token it fails at. -/
theorem Place.step_error {place : Place} {token : Token} {e : ParseError}
    (h : place.step token = .error e) : place.Blames token e := by
  cases place with
  | statement =>
      simp only [Place.step] at h
      split at h <;> cases h
      exact .unexpected
  | name => exact .of_stepExpected (by decide) (fun _ hother => if_pos hother) h
  | equals => exact .of_stepExpected (by decide) (fun _ hother => if_pos hother) h
  | leftParen => exact .of_stepExpected (by decide) (fun _ hother => if_pos hother) h
  | operand printing =>
      simp only [Place.step] at h
      split at h <;> cases h
      exact .unexpected
  | chain printing =>
      simp only [Place.step] at h
      split at h
      next => cases h
      next => exact Place.stepClose_error (fun other hother => by simp [Place.step, hother]) h
  | close printing => exact Place.stepClose_error (fun _ _ => rfl) h
  | finished => cases h

/-- A walk that fails does so at one token, which it reaches. -/
theorem Place.walk_error {place : Place} {tokens : List Token} {e : ParseError}
    (h : place.walk tokens = .error e) :
    ∃ before token after middle, tokens = before ++ token :: after ∧
      place.walk before = .ok middle ∧ middle.step token = .error e := by
  induction tokens generalizing place with
  | nil => cases h
  | cons token tokens ih =>
      rw [Place.walk] at h
      cases hstep : place.step token with
      | error e' =>
          rw [hstep] at h
          cases h
          exact ⟨[], token, tokens, place, rfl, rfl, hstep⟩
      | ok next =>
          rw [hstep] at h
          obtain ⟨before, found, after, middle, rfl, hwalk, herror⟩ := ih h
          refine ⟨token :: before, found, after, middle, rfl, ?_, herror⟩
          rw [Place.walk, hstep]
          exact hwalk

theorem Place.verdict_error {place : Place} {tokens : List Token} {e : ParseError}
    (h : place.verdict tokens = .error e) :
    place.walk tokens = .error e ∨ (e = .endOfTokens ∧ ∃ next, place.walk tokens = .ok next) := by
  rw [Place.verdict] at h
  cases hwalk : place.walk tokens with
  | error e' =>
      rw [hwalk] at h
      cases h
      exact Or.inl rfl
  | ok next =>
      rw [hwalk] at h
      refine Or.inr ⟨?_, next, rfl⟩
      cases next <;> cases h <;> rfl

section

variable {ν : Type} [NumberSystem ν]

theorem not_viable_of_walk_error {tokens : List Token} {e : ParseError}
    (h : Place.statement.walk tokens = .error e) : ¬ Viable ν tokens := by
  intro hviable
  obtain ⟨place, hwalk⟩ := viable_iff_walk.mp hviable
  rw [h] at hwalk
  cases hwalk

/-- Every beginning of a viable list is viable. -/
theorem Viable.take {tokens : List Token} (h : Viable ν tokens) (n : Nat) :
    Viable ν (tokens.take n) := by
  rw [← List.take_append_drop n tokens] at h
  exact h.of_append

/-- An error is reported at the earliest token.  The tokens run out only if they
are viable.  Otherwise the error names the first token that ends viability, and
if it asks for a kind, a token of that kind would have kept it. -/
theorem Program.ofTokens_error_earliest {tokens : List Token} {e : ParseError}
    (h : (Program.ofTokens tokens : Except ParseError (Program ν)) = .error e) :
    (e = .endOfTokens ↔ Viable ν tokens) ∧ ¬ Complete ν tokens ∧
    (e ≠ .endOfTokens → ∃ k token, tokens[k]? = some token ∧
      ¬ Viable ν (tokens.take (k + 1)) ∧ (∀ j < k, Viable ν (tokens.take (j + 1))) ∧
      (e = .unexpected token.text token.position ∨
        ∃ kind ∈ expectedKinds, e = .expected kind token.text token.position ∧
          token.kind ≠ kind ∧
          ∀ other : Token, other.kind = kind → Viable ν (tokens.take k ++ [other]))) := by
  have hverdict : Place.statement.verdict tokens = .error e := by
    rw [verdict_eq_ofTokens (ν := ν), h]
    rfl
  have hcomplete : ¬ Complete ν tokens := by
    rw [complete_iff_verdict, hverdict]
    exact nofun
  rcases Place.verdict_error hverdict with hwalk | ⟨rfl, place, hwalk⟩
  · obtain ⟨before, token, after, middle, rfl, hbefore, hstep⟩ := Place.walk_error hwalk
    have hblames := Place.step_error hstep
    have hne : e ≠ .endOfTokens := by cases hblames <;> exact nofun
    refine ⟨iff_of_false hne (not_viable_of_walk_error hwalk), hcomplete, fun _ => ?_⟩
    refine ⟨before.length, token, by simp, ?_, ?_, ?_⟩
    · rw [List.take_length_add_append]
      exact not_viable_of_walk_error ((Place.walk_concat hbefore token).trans hstep)
    · intro j hj
      rw [List.take_append_of_le_length hj]
      exact (viable_iff_walk.mpr ⟨middle, hbefore⟩).take (j + 1)
    · rw [List.take_left]
      cases hblames with
      | unexpected => exact Or.inl rfl
      | @expected kind hkind hother hothers =>
          refine Or.inr ⟨kind, hkind, rfl, hother, fun other hkind => viable_iff_walk.mpr ?_⟩
          obtain ⟨next, hnext⟩ := hothers other hkind
          exact ⟨next, (Place.walk_concat hbefore other).trans hnext⟩
  · exact ⟨iff_of_true rfl (viable_iff_walk.mpr ⟨place, hwalk⟩), hcomplete, fun hne => absurd rfl hne⟩

end

/-- A declaration without its semicolon, and the beginning of a print statement. -/
def unclosedTokens : List Token :=
  [⟨.new, "new", ⟨1, 1⟩⟩, ⟨.identifier, "x", ⟨1, 5⟩⟩, ⟨.equals, "=", ⟨1, 7⟩⟩,
    ⟨.number, "1", ⟨1, 9⟩⟩, ⟨.print, "print", ⟨2, 1⟩⟩]

theorem ofTokens_unclosedTokens :
    (Program.ofTokens unclosedTokens : Except ParseError (Program Double)) =
      .error (.expected .semicolon "print" ⟨2, 1⟩) ∧
    ¬ Viable Double unclosedTokens ∧
    ∃ k token, unclosedTokens[k]? = some token ∧ ¬ Viable Double (unclosedTokens.take (k + 1)) ∧
      ∀ j < k, Viable Double (unclosedTokens.take (j + 1)) := by
  have hread : (Program.ofTokens unclosedTokens : Except ParseError (Program Double)) =
      .error (.expected .semicolon "print" ⟨2, 1⟩) := by
    decide +kernel
  obtain ⟨hiff, _, hfirst⟩ := Program.ofTokens_error_earliest hread
  obtain ⟨k, token, hget, hnot, hbefore, _⟩ := hfirst nofun
  have hviable : ¬ Viable Double unclosedTokens := fun h => nomatch hiff.mpr h
  exact ⟨hread, hviable, k, token, hget, hnot, hbefore⟩

end SumScript
