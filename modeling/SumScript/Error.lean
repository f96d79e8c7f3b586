import SumScript.Token.Basic

/-!
# Errors

Reading a text into tokens, reading tokens into a program and running a program
can each fail, and each failure has its own type.  An error says what is wrong
and where.  The wording is in the functions named `message` and nowhere else.
-/

namespace SumScript

/-- A character that starts no token. -/
structure LexError where
  /-- The character. -/
  character : Char
  /-- Where it stands. -/
  position : Position
deriving DecidableEq

/-- A place where a list of tokens is no program. -/
inductive ParseError where
  /-- A token that is no operand where one has to stand, or that starts no
  statement. -/
  | unexpected (found : String) (position : Position)
  /-- A token that stands where only another kind can. -/
  | expected (kind : TokenKind) (found : String) (position : Position)
  /-- The tokens are used up. -/
  | endOfTokens
deriving DecidableEq

/-- A use of a variable that its state forbids. -/
inductive RuntimeError where
  /-- The declaration of a variable that exists. -/
  | redeclared (name : String)
  /-- The use of a variable that does not exist. -/
  | undeclared (name : String)
deriving DecidableEq

/-- Any failure on the way from a text to its output. -/
inductive Error where
  /-- The text has no tokens. -/
  | lex (error : LexError)
  /-- The tokens form no program. -/
  | parse (error : ParseError)
  /-- The program breaks off. -/
  | runtime (error : RuntimeError)
deriving DecidableEq

/-! ## Messages -/

/-- A place, as messages end with it. -/
def Position.message (p : Position) : String :=
  " at line " ++ toString p.line ++ ", column " ++ toString p.column

/-- What is wrong, for the reader of the text. -/
def LexError.message (e : LexError) : String :=
  "Unexpected character '" ++ e.character.toString ++ "'" ++ e.position.message

/-- What is wrong, for the reader of the text. -/
def ParseError.message : ParseError → String
  | .unexpected found position => "Unexpected token '" ++ found ++ "'" ++ position.message
  | .expected kind found position =>
      "Expected " ++ kind.name ++ " but got '" ++ found ++ "'" ++ position.message
  | .endOfTokens => "Unexpected end of input"

/-- What is wrong, for the reader of the text. -/
def RuntimeError.message : RuntimeError → String
  | .redeclared name => "Variable '" ++ name ++ "' is already declared"
  | .undeclared name => "Variable '" ++ name ++ "' is not declared"

/-- What is wrong, for the reader of the text. -/
def Error.message : Error → String
  | .lex e => e.message
  | .parse e => e.message
  | .runtime e => e.message

end SumScript
