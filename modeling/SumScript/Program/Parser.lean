import SumScript.Error
import SumScript.Program.Basic

/-!
# Reading programs

The grammar, over tokens:

    program    := statement* end-of-input
    statement  := new identifier = expression ;
                | identifier = expression ;
                | print ( expression ) ;
    expression := operand ((+ | -) operand)*
    operand    := number | identifier

A parser takes tokens from the front of a list and hands back the tokens it has
left, also when it fails.  So it shows which tokens a failure has used up: an
operand is taken before it is judged, and a token that another kind was expected
for stays, as does one that starts no statement.  The end of the input is not
taken either.

A chain of operands is read from left to right and folded to the left.  Reading
a program ends because every statement takes a token
(`Statement.length_parse_lt`).
-/

namespace SumScript

/-! ## Parsers -/

/-- A parser for values of type `α`: from the tokens, the value or an error, and
the tokens that are left. -/
def Parser (α : Type) : Type := List Token → Except ParseError α × List Token

instance : Monad Parser where
  pure a := fun tokens => (.ok a, tokens)
  bind p f := fun tokens =>
    match p tokens with
    | (.ok a, rest) => f a rest
    | (.error e, rest) => (.error e, rest)

/-- The error that a token is out of place. -/
def Token.unexpected (token : Token) : ParseError := .unexpected token.text token.position

/-- Takes the next token if it is of the given kind. -/
def expect (kind : TokenKind) : Parser Token := fun tokens =>
  match tokens with
  | [] => (.error .endOfTokens, [])
  | token :: rest =>
      if token.kind = kind then (.ok token, rest)
      else (.error (.expected kind token.text token.position), token :: rest)

/-! ## Expressions -/

section

variable {ν : Type} [NumberSystem ν]

/-- The operand that a token is. -/
def Expr.ofToken (token : Token) : Except ParseError (Expr ν) :=
  match token.kind with
  | .number =>
      match literal? ν token.text with
      | some value => .ok (.number value)
      | none => .error token.unexpected
  | .identifier => .ok (.var token.text)
  | _ => .error token.unexpected

/-- Takes the next token as an operand. -/
def Expr.parseOperand : Parser (Expr ν) := fun tokens =>
  match tokens with
  | [] => (.error .endOfTokens, [])
  | token :: rest => (Expr.ofToken token, rest)

/-- The operation whose sign a kind is. -/
def Operator.ofKind? : TokenKind → Option Operator
  | .plus => some .add
  | .minus => some .sub
  | _ => none

/-- Reads the rest of a chain whose operands so far make up `left`. -/
def Expr.parseChain (left : Expr ν) :
    List Token → Except ParseError (Expr ν) × List Token
  | [] => (.ok left, [])
  | sign :: rest =>
      match Operator.ofKind? sign.kind with
      | none => (.ok left, sign :: rest)
      | some op =>
          match rest with
          | [] => (.error .endOfTokens, [])
          | token :: rest =>
              match Expr.ofToken token with
              | .error e => (.error e, rest)
              | .ok right => parseChain (.binary op left right) rest

/-- Reads an expression. -/
def Expr.parse : Parser (Expr ν) := do
  let first ← Expr.parseOperand
  Expr.parseChain first

/-! ## Statements -/

/-- Reads a declaration. -/
def Statement.parseDeclare : Parser (Statement ν) := do
  let _ ← expect .new
  let name ← expect .identifier
  let _ ← expect .equals
  let value ← Expr.parse
  let _ ← expect .semicolon
  return .declare name.text value

/-- Reads an assignment. -/
def Statement.parseAssign : Parser (Statement ν) := do
  let name ← expect .identifier
  let _ ← expect .equals
  let value ← Expr.parse
  let _ ← expect .semicolon
  return .assign name.text value

/-- Reads a print statement. -/
def Statement.parsePrint : Parser (Statement ν) := do
  let _ ← expect .print
  let _ ← expect .leftParen
  let value ← Expr.parse
  let _ ← expect .rightParen
  let _ ← expect .semicolon
  return .print value

/-- Reads a statement.  Its first token tells which one it is. -/
def Statement.parse : Parser (Statement ν) := fun tokens =>
  match tokens with
  | [] => (.error .endOfTokens, [])
  | token :: rest =>
      match token.kind with
      | .new => Statement.parseDeclare (token :: rest)
      | .print => Statement.parsePrint (token :: rest)
      | .identifier => Statement.parseAssign (token :: rest)
      | _ => (.error token.unexpected, token :: rest)

end

/-! ## What parsers leave -/

/-- What the parser leaves is the end of what it was given. -/
def Parser.Forward {α : Type} (p : Parser α) : Prop := ∀ tokens, (p tokens).2 <:+ tokens

theorem Parser.Forward.pure {α : Type} (a : α) : Parser.Forward (Pure.pure a : Parser α) :=
  fun tokens => List.suffix_refl tokens

theorem Parser.Forward.bind {α β : Type} {p : Parser α} {f : α → Parser β}
    (hp : p.Forward) (hf : ∀ a, (f a).Forward) : Parser.Forward (p >>= f) := by
  intro tokens
  have h := hp tokens
  simp only [Bind.bind]
  split
  · next a rest heq => rw [heq] at h; exact (hf a rest).trans h
  · next e rest heq => rw [heq] at h; exact h

theorem forward_expect (kind : TokenKind) : (expect kind).Forward := by
  intro tokens
  unfold expect
  split
  · exact List.suffix_refl _
  · split
    · exact List.suffix_cons _ _
    · exact List.suffix_refl _

section

variable {ν : Type} [NumberSystem ν]

theorem Expr.forward_parseOperand : (Expr.parseOperand : Parser (Expr ν)).Forward := by
  intro tokens
  unfold Expr.parseOperand
  split
  · exact List.suffix_refl _
  · exact List.suffix_cons _ _

theorem Expr.forward_parseChain (left : Expr ν) (tokens : List Token) :
    (Expr.parseChain left tokens).2 <:+ tokens := by
  fun_induction Expr.parseChain left tokens with
  | case1 => exact List.suffix_refl _
  | case2 => exact List.suffix_refl _
  | case3 => exact List.suffix_cons _ _
  | case4 => exact (List.suffix_cons _ _).trans (List.suffix_cons _ _)
  | case5 _ _ _ _ _ _ _ _ ih =>
      exact ih.trans ((List.suffix_cons _ _).trans (List.suffix_cons _ _))

theorem Expr.forward_parse : (Expr.parse : Parser (Expr ν)).Forward :=
  .bind Expr.forward_parseOperand Expr.forward_parseChain

/-- A parser that begins with an expected kind takes a token when it succeeds. -/
theorem length_expect_bind_lt {α : Type} {kind : TokenKind} {f : Token → Parser α}
    (hf : ∀ token, (f token).Forward) {tokens rest : List Token} {a : α}
    (h : (expect kind >>= f) tokens = (.ok a, rest)) : rest.length < tokens.length := by
  cases tokens with
  | nil => simp [Bind.bind, expect] at h
  | cons token tail =>
      by_cases hkind : token.kind = kind
      · simp only [Bind.bind, expect, if_pos hkind] at h
        have hsuffix := hf token tail
        rw [h] at hsuffix
        exact Nat.lt_succ_of_le hsuffix.length_le
      · simp [Bind.bind, expect, hkind] at h

/-- A statement takes at least one token. -/
theorem Statement.length_parse_lt {tokens rest : List Token} {s : Statement ν}
    (h : Statement.parse tokens = (.ok s, rest)) : rest.length < tokens.length := by
  unfold Statement.parse at h
  split at h
  · cases h
  · split at h
    · refine length_expect_bind_lt (fun _ => ?_) h
      exact .bind (forward_expect _) fun _ => .bind (forward_expect _) fun _ =>
        .bind Expr.forward_parse fun _ => .bind (forward_expect _) fun _ => .pure _
    · refine length_expect_bind_lt (fun _ => ?_) h
      exact .bind (forward_expect _) fun _ => .bind Expr.forward_parse fun _ =>
        .bind (forward_expect _) fun _ => .bind (forward_expect _) fun _ => .pure _
    · refine length_expect_bind_lt (fun _ => ?_) h
      exact .bind (forward_expect _) fun _ => .bind Expr.forward_parse fun _ =>
        .bind (forward_expect _) fun _ => .pure _
    · cases h

/-! ## Programs -/

/-- Reads statements up to the end of the input.  Those read before are given in
reverse. -/
def Program.parseFrom (done : List (Statement ν)) (tokens : List Token) :
    Except ParseError (Program ν) × List Token :=
  match tokens with
  | [] => (.error .endOfTokens, [])
  | token :: rest =>
      if token.kind = .endOfInput then (.ok done.reverse, token :: rest)
      else
        match _h : Statement.parse (token :: rest) with
        | (.error e, rest) => (.error e, rest)
        | (.ok s, rest) => parseFrom (s :: done) rest
termination_by tokens.length
decreasing_by exact Statement.length_parse_lt _h

/-- Reads a program. -/
def Program.parse : Parser (Program ν) := Program.parseFrom []

/-- The program that a list of tokens holds before its first end of input. -/
def Program.ofTokens (tokens : List Token) : Except ParseError (Program ν) :=
  (Program.parse tokens).1

end

end SumScript
