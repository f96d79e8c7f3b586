import SumScript.Source.Position

/-!
# Tokens

A token is a word, a number or a sign of a source text, with its kind and the
place where it starts.  Every list of tokens that is read from a text ends with
a token of kind `endOfInput`, which has no text.
-/

namespace SumScript

/-- The kinds of tokens. -/
inductive TokenKind where
  /-- A run of digits. -/
  | number
  /-- The name of a variable. -/
  | identifier
  /-- The word `new`. -/
  | new
  /-- The word `print`. -/
  | print
  /-- The sign `=`. -/
  | equals
  /-- The sign `+`. -/
  | plus
  /-- The sign `-`. -/
  | minus
  /-- The sign `;`. -/
  | semicolon
  /-- The sign `(`. -/
  | leftParen
  /-- The sign `)`. -/
  | rightParen
  /-- The end of the text. -/
  | endOfInput
deriving DecidableEq

/-- The name of a kind, as error messages use it. -/
def TokenKind.name : TokenKind → String
  | .number => "Number"
  | .identifier => "Identifier"
  | .new => "New"
  | .print => "Print"
  | .equals => "Equals"
  | .plus => "Plus"
  | .minus => "Minus"
  | .semicolon => "Semicolon"
  | .leftParen => "LParen"
  | .rightParen => "RParen"
  | .endOfInput => "EndOfInput"

/-- A token of a source text. -/
structure Token where
  /-- What the token is. -/
  kind : TokenKind
  /-- The text as it stands in the source. -/
  text : String
  /-- Where the text starts. -/
  position : Position
deriving DecidableEq

end SumScript
