import SumScript.Proofs.Program.Viable

/-!
# What parsers take and leave

Parsers share one list of tokens, so it matters what each of them has taken when it
ends, and also when it fails.  A parser that succeeds has taken a derivation, and the
size of the tree tells how long that is (`Expr.Derives.length_eq`,
`Statement.Derives.length_eq`).

A parser that fails has taken the beginning of a derivation and does not find what is
*needed* next.  The grammar says what that is (`Expr.Needs`, `Statement.Needs`).  Needs
differ in what becomes of the token that does not meet them: an operand is taken before
it is judged, while a token that starts no statement, or is not of the kind expected,
stays (`Need.Fails`).
-/

namespace SumScript

/-! ## Needs -/

/-- What has to come next. -/
inductive Need where
  /-- A statement. -/
  | statement
  /-- An operand. -/
  | operand
  /-- A token of a kind. -/
  | kind (kind : TokenKind)
  /-- A sign, or a token of the kind that comes after an expression. -/
  | close (kind : TokenKind)

/-- `need.Fails tokens e rest`: the tokens do not begin with what is needed, this is the
error, and the rest is left. -/
inductive Need.Fails : Need → List Token → ParseError → List Token → Prop where
  /-- A token that starts no statement is not taken. -/
  | statement {token : Token} {tail : List Token} :
      token.kind ∉ [.new, .print, .identifier] →
      Fails .statement (token :: tail) (.unexpected token.text token.position) (token :: tail)
  /-- A token that is no operand is the last one taken. -/
  | operand {token : Token} {tail : List Token} : ¬ token.isOperand →
      Fails .operand (token :: tail) (.unexpected token.text token.position) tail
  /-- A token of another kind is not taken. -/
  | kind {kind : TokenKind} {token : Token} {tail : List Token} : token.kind ≠ kind →
      Fails (.kind kind) (token :: tail) (.expected kind token.text token.position) (token :: tail)
  /-- Nor is one that is no sign either. -/
  | close {kind : TokenKind} {token : Token} {tail : List Token} : token.kind ≠ kind →
      Operator.ofKind? token.kind = none →
      Fails (.close kind) (token :: tail) (.expected kind token.text token.position)
        (token :: tail)
  /-- There is no token. -/
  | none {need : Need} : Fails need [] .endOfTokens []

theorem Need.Fails.suffix {need : Need} {tokens rest : List Token} {e : ParseError}
    (h : need.Fails tokens e rest) : rest <:+ tokens := by
  cases h with
  | operand => exact List.suffix_cons _ _
  | statement | kind | close | none => exact List.suffix_refl _

section

variable (ν : Type) [NumberSystem ν]

/-- `Expr.Needs ν used need`: an expression that begins with the tokens goes on with what
is needed. -/
inductive Expr.Needs : List Token → Need → Prop where
  | first : Needs [] .operand
  | later {value : Expr ν} {used : List Token} {sign : Token} {op : Operator} :
      value.Derives used → sign.kind = op.kind → Needs (used ++ [sign]) .operand

/-- `Statement.Opens close tokens`: the tokens are those of a statement before its
expression, and the kind comes after the expression. -/
inductive Statement.Opens : TokenKind → List Token → Prop where
  | declare {new name equals : Token} : new.kind = .new → name.kind = .identifier →
      equals.kind = .equals → Opens .semicolon [new, name, equals]
  | assign {name equals : Token} : name.kind = .identifier → equals.kind = .equals →
      Opens .semicolon [name, equals]
  | print {print left : Token} : print.kind = .print → left.kind = .leftParen →
      Opens .rightParen [print, left]

/-- `Statement.Needs ν used need`: a statement that begins with the tokens goes on with
what is needed. -/
inductive Statement.Needs : List Token → Need → Prop where
  | start : Needs [] .statement
  | name {new : Token} : new.kind = .new → Needs [new] (.kind .identifier)
  | declareEquals {new name : Token} : new.kind = .new → name.kind = .identifier →
      Needs [new, name] (.kind .equals)
  | assignEquals {name : Token} : name.kind = .identifier → Needs [name] (.kind .equals)
  | leftParen {print : Token} : print.kind = .print → Needs [print] (.kind .leftParen)
  | expression {close : TokenKind} {opening used : List Token} {need : Need} :
      Statement.Opens close opening → Expr.Needs ν used need → Needs (opening ++ used) need
  | close {close : TokenKind} {opening used : List Token} {value : Expr ν} :
      Statement.Opens close opening → value.Derives used →
      Needs (opening ++ used) (.close close)
  | semicolon {opening used : List Token} {value : Expr ν} {right : Token} :
      Statement.Opens .rightParen opening → value.Derives used → right.kind = .rightParen →
      Needs (opening ++ used ++ [right]) (.kind .semicolon)

/-! ## Failures -/

/-- `BreaksOff Needs tokens e rest`: some tokens are taken, and what is needed after them does
not come. -/
inductive BreaksOff (Needs : List Token → Need → Prop) :
    List Token → ParseError → List Token → Prop where
  | intro {used tail rest : List Token} {need : Need} {e : ParseError} :
      Needs used need → need.Fails tail e rest → BreaksOff Needs (used ++ tail) e rest

/-- A program fails at the first statement that fails.  It does not fail at an end
marker. -/
inductive Program.BreaksOff : List Token → ParseError → List Token → Prop where
  | intro {p : Program ν} {used tail rest : List Token} {e : ParseError} :
      Program.Derives p used → (∀ marker ∈ tail.head?, marker.kind ≠ .endOfInput) →
      SumScript.BreaksOff (Statement.Needs ν) tail e rest → BreaksOff (used ++ tail) e rest

end

theorem BreaksOff.suffix {Needs : List Token → Need → Prop} {tokens rest : List Token}
    {e : ParseError} (h : BreaksOff Needs tokens e rest) : rest <:+ tokens := by
  obtain ⟨-, hfails⟩ := h
  exact hfails.suffix.trans (List.suffix_append _ _)

section

variable {ν : Type} [NumberSystem ν]

theorem Program.BreaksOff.suffix {tokens rest : List Token} {e : ParseError}
    (h : Program.BreaksOff ν tokens e rest) : rest <:+ tokens := by
  obtain ⟨-, -, hfails⟩ := h
  exact hfails.suffix.trans (List.suffix_append _ _)

/-! ## Single tokens -/

theorem Parser.bind_eq_error_iff {α β : Type} {p : Parser α} {f : α → Parser β}
    {tokens rest : List Token} {e : ParseError} :
    (p >>= f) tokens = (.error e, rest) ↔
      p tokens = (.error e, rest) ∨
        ∃ a middle, p tokens = (.ok a, middle) ∧ f a middle = (.error e, rest) := by
  rcases hp : p tokens with ⟨e' | a, middle⟩
  · simp [Parser.bind_of_error hp]
  · rw [Parser.bind_of_ok hp]
    constructor
    · intro h
      exact Or.inr ⟨a, middle, rfl, h⟩
    · rintro (h | ⟨a', middle', heq, h⟩)
      · cases h
      · cases heq
        exact h

theorem fails_of_expect {kind : TokenKind} {tokens rest : List Token} {e : ParseError}
    (h : expect kind tokens = (.error e, rest)) : (Need.kind kind).Fails tokens e rest := by
  cases tokens with
  | nil =>
      cases h
      exact .none
  | cons token tail =>
      by_cases hkind : token.kind = kind
      · rw [expect_cons hkind] at h
        cases h
      · rw [expect_of_ne hkind] at h
        cases h
        exact .kind hkind

/-- After an expression a missing kind is more: no sign comes either. -/
theorem close_of_expect {kind : TokenKind} {tokens rest : List Token} {e : ParseError}
    (hsign : NoSign tokens) (h : expect kind tokens = (.error e, rest)) :
    (Need.close kind).Fails tokens e rest := by
  cases fails_of_expect h with
  | kind hkind => exact .close hkind (hsign _ rfl)
  | none => exact .none

theorem Expr.fails_of_parseOperand {tokens rest : List Token} {e : ParseError}
    (h : (Expr.parseOperand : Parser (Expr ν)) tokens = (.error e, rest)) :
    Need.operand.Fails tokens e rest := by
  cases tokens with
  | nil =>
      cases h
      exact .none
  | cons token tail =>
      by_cases hoperand : token.isOperand
      · obtain ⟨value, hvalue⟩ := Expr.exists_ofToken (ν := ν) hoperand
        rw [Expr.parseOperand, hvalue] at h
        cases h
      · rw [Expr.parseOperand, Expr.ofToken_of_not_isOperand hoperand] at h
        cases h
        exact .operand hoperand

/-! ## Expressions -/

/-- The number of operations in an expression. -/
def Expr.operations : Expr ν → Nat
  | .number _ => 0
  | .var _ => 0
  | .binary _ left right => left.operations + right.operations + 1

theorem Operand.operations_eq {e : Expr ν} {token : Token} (h : Operand e token) :
    e.operations = 0 := by
  cases h <;> rfl

theorem Expr.Derives.length_eq {e : Expr ν} {used : List Token} (h : e.Derives used) :
    used.length = 2 * e.operations + 1 := by
  induction h with
  | operand hoperand => rw [hoperand.operations_eq, List.length_singleton]
  | binary _ _ hoperand ih =>
      rw [Expr.operations, hoperand.operations_eq, List.length_append, ih]
      simp only [List.length_cons, List.length_nil]
      omega

theorem Expr.parseOperand_eq_ok_iff {e : Expr ν} {tokens rest : List Token} :
    Expr.parseOperand tokens = (.ok e, rest) ↔
      ∃ token, tokens = token :: rest ∧ Operand e token := by
  cases tokens with
  | nil => simp [Expr.parseOperand]
  | cons token tail =>
      simp only [Expr.parseOperand, Prod.mk.injEq, Expr.ofToken_eq_ok_iff, List.cons.injEq]
      constructor
      · rintro ⟨hoperand, rfl⟩
        exact ⟨token, ⟨rfl, rfl⟩, hoperand⟩
      · rintro ⟨_, ⟨rfl, rfl⟩, hoperand⟩
        exact ⟨hoperand, rfl⟩

/-- A chain that begins after a derivation fails at an operand after a sign. -/
theorem Expr.fails_of_parseChain {left : Expr ν} {before tokens rest : List Token}
    {e : ParseError} (hleft : left.Derives before)
    (h : Expr.parseChain left tokens = (.error e, rest)) :
    BreaksOff (Expr.Needs ν) (before ++ tokens) e rest := by
  fun_induction Expr.parseChain left tokens generalizing before with
  | case1 => cases h
  | case2 => cases h
  | case3 left sign op hop =>
      cases h
      have hneeds := Expr.Needs.later hleft (Operator.ofKind?_eq_some_iff.mp hop)
      simpa using BreaksOff.intro hneeds .none
  | case4 left sign op hop token tail e' htoken =>
      have hoperand : (Expr.parseOperand : Parser (Expr ν)) (token :: tail) = (.error e', tail) :=
        Prod.ext htoken rfl
      cases h
      have hneeds := Expr.Needs.later hleft (Operator.ofKind?_eq_some_iff.mp hop)
      simpa using BreaksOff.intro hneeds (Expr.fails_of_parseOperand hoperand)
  | case5 left sign op hop token tail right htoken ih =>
      have hbinary := Expr.Derives.binary hleft (Operator.ofKind?_eq_some_iff.mp hop)
        (Expr.ofToken_eq_ok_iff.mp htoken)
      simpa using ih hbinary h

theorem Expr.fails_of_parse {tokens rest : List Token} {e : ParseError}
    (h : (Expr.parse : Parser (Expr ν)) tokens = (.error e, rest)) :
    BreaksOff (Expr.Needs ν) tokens e rest := by
  rcases Parser.bind_eq_error_iff.mp h with hfirst | ⟨first, middle, hfirst, hchain⟩
  · exact BreaksOff.intro Expr.Needs.first (Expr.fails_of_parseOperand hfirst)
  · obtain ⟨token, rfl, hoperand⟩ := Expr.parseOperand_eq_ok_iff.mp hfirst
    exact Expr.fails_of_parseChain (.operand hoperand) hchain

/-! ## Statements -/

/-- The number of tokens that a statement has besides those of its expression. -/
def Statement.frame : Statement ν → Nat
  | .declare _ _ => 4
  | .assign _ _ => 3
  | .print _ => 4

theorem Statement.Derives.length_eq {s : Statement ν} {used : List Token} (h : s.Derives used) :
    used.length = 2 * s.value.operations + 1 + s.frame := by
  cases h with
  | declare _ _ _ hvalue => simp [Statement.value, Statement.frame, hvalue.length_eq]
  | assign _ _ hvalue => simp [Statement.value, Statement.frame, hvalue.length_eq]
  | print _ _ hvalue => simp [Statement.value, Statement.frame, hvalue.length_eq]

/-- The expression of a statement fails. -/
theorem Statement.Opens.fails_of_expr {close : TokenKind} {opening tokens rest : List Token}
    {e : ParseError} (hopens : Statement.Opens close opening)
    (h : (Expr.parse : Parser (Expr ν)) tokens = (.error e, rest)) :
    BreaksOff (Statement.Needs ν) (opening ++ tokens) e rest := by
  obtain ⟨hneeds, hfails⟩ := Expr.fails_of_parse h
  rw [← List.append_assoc]
  exact .intro (.expression hopens hneeds) hfails

/-- What comes after the expression of a statement fails. -/
theorem Statement.Opens.fails_of_close {close : TokenKind} {opening used tail rest : List Token}
    {value : Expr ν} {e : ParseError} (hopens : Statement.Opens close opening)
    (hvalue : value.Derives used) (hsign : NoSign tail)
    (h : expect close tail = (.error e, rest)) :
    BreaksOff (Statement.Needs ν) (opening ++ (used ++ tail)) e rest := by
  rw [← List.append_assoc]
  exact .intro (.close hopens hvalue) (close_of_expect hsign h)

/-- A declaration breaks off where a token or its expression is missing. -/
theorem Statement.fails_of_parseDeclare {token : Token} {tail rest : List Token} {e : ParseError}
    (hnew : token.kind = .new)
    (h : (Statement.parseDeclare : Parser (Statement ν)) (token :: tail) = (.error e, rest)) :
    BreaksOff (Statement.Needs ν) (token :: tail) e rest := by
  rw [Statement.parseDeclare, Parser.bind_of_ok (expect_cons hnew tail)] at h
  simp only [Parser.bind_eq_error_iff, expect_eq_ok_iff, Expr.parse_eq_ok_iff] at h
  obtain hfails | ⟨name, _, ⟨rfl, hname⟩, hfails | ⟨equals, _, ⟨rfl, hequals⟩, hfails |
    ⟨value, _, ⟨used, rfl, hvalue, hsign⟩, hfails | ⟨_, _, _, hpure⟩⟩⟩⟩ := h
  · exact BreaksOff.intro (Statement.Needs.name hnew) (fails_of_expect hfails)
  · exact BreaksOff.intro (Statement.Needs.declareEquals hnew hname) (fails_of_expect hfails)
  · exact (Statement.Opens.declare hnew hname hequals).fails_of_expr hfails
  · exact (Statement.Opens.declare hnew hname hequals).fails_of_close hvalue hsign hfails
  · cases hpure

theorem Statement.fails_of_parseAssign {token : Token} {tail rest : List Token} {e : ParseError}
    (hname : token.kind = .identifier)
    (h : (Statement.parseAssign : Parser (Statement ν)) (token :: tail) = (.error e, rest)) :
    BreaksOff (Statement.Needs ν) (token :: tail) e rest := by
  rw [Statement.parseAssign, Parser.bind_of_ok (expect_cons hname tail)] at h
  simp only [Parser.bind_eq_error_iff, expect_eq_ok_iff, Expr.parse_eq_ok_iff] at h
  obtain hfails | ⟨equals, _, ⟨rfl, hequals⟩, hfails |
    ⟨value, _, ⟨used, rfl, hvalue, hsign⟩, hfails | ⟨_, _, _, hpure⟩⟩⟩ := h
  · exact BreaksOff.intro (Statement.Needs.assignEquals hname) (fails_of_expect hfails)
  · exact (Statement.Opens.assign hname hequals).fails_of_expr hfails
  · exact (Statement.Opens.assign hname hequals).fails_of_close hvalue hsign hfails
  · cases hpure

theorem Statement.fails_of_parsePrint {token : Token} {tail rest : List Token} {e : ParseError}
    (hprint : token.kind = .print)
    (h : (Statement.parsePrint : Parser (Statement ν)) (token :: tail) = (.error e, rest)) :
    BreaksOff (Statement.Needs ν) (token :: tail) e rest := by
  rw [Statement.parsePrint, Parser.bind_of_ok (expect_cons hprint tail)] at h
  simp only [Parser.bind_eq_error_iff, expect_eq_ok_iff, Expr.parse_eq_ok_iff] at h
  obtain hfails | ⟨left, _, ⟨rfl, hleft⟩, hfails | ⟨value, _, ⟨used, rfl, hvalue, hsign⟩, hfails |
    ⟨right, _, ⟨rfl, hright⟩, hfails | ⟨_, _, _, hpure⟩⟩⟩⟩ := h
  · exact BreaksOff.intro (Statement.Needs.leftParen hprint) (fails_of_expect hfails)
  · exact (Statement.Opens.print hprint hleft).fails_of_expr hfails
  · exact (Statement.Opens.print hprint hleft).fails_of_close hvalue hsign hfails
  · have hneeds := Statement.Needs.semicolon (.print hprint hleft) hvalue hright
    simpa using BreaksOff.intro hneeds (fails_of_expect hfails)
  · cases hpure

theorem Statement.fails_of_parse {tokens rest : List Token} {e : ParseError}
    (h : (Statement.parse : Parser (Statement ν)) tokens = (.error e, rest)) :
    BreaksOff (Statement.Needs ν) tokens e rest := by
  unfold Statement.parse at h
  split at h
  next =>
    cases h
    exact BreaksOff.intro Statement.Needs.start .none
  next token tail =>
    split at h
    next hkind => exact Statement.fails_of_parseDeclare hkind h
    next hkind => exact Statement.fails_of_parsePrint hkind h
    next hkind => exact Statement.fails_of_parseAssign hkind h
    next hnew hprint hname =>
      cases h
      have hstart : token.kind ∉ [.new, .print, .identifier] := by
        simpa using ⟨hnew, hprint, hname⟩
      exact BreaksOff.intro Statement.Needs.start (.statement hstart)

/-! ## Programs -/

theorem Program.fails_of_parseFrom {done : List (Statement ν)} {tokens rest : List Token}
    {e : ParseError} (h : Program.parseFrom done tokens = (.error e, rest)) :
    Program.BreaksOff ν tokens e rest := by
  fun_induction Program.parseFrom done tokens with
  | case1 =>
      cases h
      exact .intro .nil (by simp) (SumScript.BreaksOff.intro Statement.Needs.start .none)
  | case2 => cases h
  | case3 done token tail hkind e' rest' hparse =>
      cases h
      exact .intro .nil (by simpa using hkind) (Statement.fails_of_parse hparse)
  | case4 done token tail hkind s middle hparse ih =>
      obtain ⟨used, heq, hstatement⟩ := Statement.parse_eq_ok_iff.mp hparse
      obtain ⟨hderives, hhead, hfails⟩ := ih h
      rw [heq, ← List.append_assoc]
      exact .intro (.cons hstatement hderives) hhead hfails

/-! ## All parsers -/

/-- How a parser ends on some tokens.  It leaves an end of them.  It has a value exactly
if it can take some of them for it, as `Takes` says, and `Fails` says what becomes of an
error. -/
structure Parser.Ends {α : Type} (p : Parser α) (tokens : List Token)
    (Takes : α → List Token → List Token → Prop)
    (Fails : List Token → ParseError → List Token → Prop) : Prop where
  ok : ∀ {a : α} {rest : List Token}, p tokens = (.ok a, rest) ↔
    ∃ used, tokens = used ++ rest ∧ Takes a used rest
  error : ∀ {e : ParseError} {rest : List Token}, p tokens = (.error e, rest) →
    rest <:+ tokens ∧ Fails tokens e rest

/-- What every parser takes and leaves.  An operand is one token.  An expression is as
long as its operations make it, and no sign is left after it.  A statement is its
derivation, whatever follows.  A program leaves its end marker. -/
theorem parse_consumption (tokens : List Token) :
    (Expr.parseOperand : Parser (Expr ν)).Ends tokens
      (fun e used _ => ∃ token, used = [token] ∧ Operand e token) Need.operand.Fails ∧
    (Expr.parse : Parser (Expr ν)).Ends tokens
      (fun e used rest => e.Derives used ∧ used.length = 2 * e.operations + 1 ∧ NoSign rest)
      (BreaksOff (Expr.Needs ν)) ∧
    (Statement.parse : Parser (Statement ν)).Ends tokens
      (fun s used _ => s.Derives used ∧ used.length = 2 * s.value.operations + 1 + s.frame)
      (BreaksOff (Statement.Needs ν)) ∧
    (Program.parse : Parser (Program ν)).Ends tokens
      (fun p used rest => Program.Derives p used ∧
        ∃ marker ∈ rest.head?, marker.kind = .endOfInput) (Program.BreaksOff ν) := by
  refine ⟨⟨?_, ?_⟩, ⟨?_, ?_⟩, ⟨?_, ?_⟩, ⟨?_, ?_⟩⟩
  · intro e rest
    rw [Expr.parseOperand_eq_ok_iff]
    constructor
    · rintro ⟨token, rfl, hoperand⟩
      exact ⟨[token], rfl, token, rfl, hoperand⟩
    · rintro ⟨_, rfl, token, rfl, hoperand⟩
      exact ⟨token, rfl, hoperand⟩
  · intro e rest h
    have hfails := Expr.fails_of_parseOperand h
    exact ⟨hfails.suffix, hfails⟩
  · intro e rest
    rw [Expr.parse_eq_ok_iff]
    constructor
    · rintro ⟨used, rfl, hderives, hsign⟩
      exact ⟨used, rfl, hderives, hderives.length_eq, hsign⟩
    · rintro ⟨used, rfl, hderives, -, hsign⟩
      exact ⟨used, rfl, hderives, hsign⟩
  · intro e rest h
    have hfails := Expr.fails_of_parse h
    exact ⟨hfails.suffix, hfails⟩
  · intro s rest
    rw [Statement.parse_eq_ok_iff]
    constructor
    · rintro ⟨used, rfl, hderives⟩
      exact ⟨used, rfl, hderives, hderives.length_eq⟩
    · rintro ⟨used, rfl, hderives, -⟩
      exact ⟨used, rfl, hderives⟩
  · intro e rest h
    have hfails := Statement.fails_of_parse h
    exact ⟨hfails.suffix, hfails⟩
  · intro p rest
    exact Program.parse_eq_ok_iff
  · intro e rest h
    have hfails := Program.fails_of_parseFrom h
    exact ⟨hfails.suffix, hfails⟩

end

/-- A print statement without its second operand, and a name after it. -/
def missingOperand : List Token :=
  [⟨.print, "print", ⟨1, 1⟩⟩, ⟨.leftParen, "(", ⟨1, 6⟩⟩, ⟨.number, "1", ⟨1, 7⟩⟩,
    ⟨.plus, "+", ⟨1, 9⟩⟩, ⟨.rightParen, ")", ⟨1, 11⟩⟩, ⟨.identifier, "x", ⟨1, 12⟩⟩]

/-- The parenthesis is taken for the operand.  A sum without a fault ends before it. -/
theorem parse_missingOperand :
    (Statement.parse : Parser (Statement Double)) missingOperand =
        (.error (.unexpected ")" ⟨1, 11⟩), [⟨.identifier, "x", ⟨1, 12⟩⟩]) ∧
      BreaksOff (Statement.Needs Double) missingOperand (.unexpected ")" ⟨1, 11⟩)
        [⟨.identifier, "x", ⟨1, 12⟩⟩] ∧
      ∃ used, [.ofKind .identifier, .ofKind .plus, .ofKind .identifier, .ofKind .rightParen] =
        used ++ [Token.ofKind .rightParen] ∧ used.length = 3 := by
  have hfails : (Statement.parse : Parser (Statement Double)) missingOperand =
      (.error (.unexpected ")" ⟨1, 11⟩), [⟨.identifier, "x", ⟨1, 12⟩⟩]) := by
    decide +kernel
  have hsum : Expr.parse
      [.ofKind .identifier, .ofKind .plus, .ofKind .identifier, .ofKind .rightParen] =
        (.ok (.binary (ν := Double) .add (.var "") (.var "")), [.ofKind .rightParen]) := by
    decide +kernel
  obtain ⟨used, htokens, -, hlength, -⟩ := (parse_consumption _).2.1.ok.mp hsum
  exact ⟨hfails, ((parse_consumption missingOperand).2.2.1.error hfails).2, used, htokens, hlength⟩

end SumScript
