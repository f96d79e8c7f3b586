import SumScript.Token.Basic

/-!
# Lexemes

A text is cut into *pieces*: tokens, blanks, comments and line ends.  `piece?`
finds the piece at the front of a text.  Digits, words, blanks and comments
reach as far as they can.  A word is a name unless it is exactly one of the two
words that start statements.

A *lexeme* is a token with its mark.  `scan` cuts a text from front to back and
keeps the lexemes.  It ends because each piece takes at least one character
(`length_rest_lt`), and it stops at the first character that starts no piece.
-/

namespace SumScript

/-! ## Characters -/

/-- Whether a character can start a word. -/
def isWordStart (c : Char) : Bool := c.isAlpha || c == '_'

/-- Whether a character can stand inside a word. -/
def isWordPart (c : Char) : Bool := c.isAlphanum || c == '_'

/-- Whether a character is a blank that stays on its line. -/
def isBlank (c : Char) : Bool := c == ' ' || c == '\t' || c == '\r'

/-- The kind of the token that a sign is by itself. -/
def signKind? : Char → Option TokenKind
  | '=' => some .equals
  | '+' => some .plus
  | '-' => some .minus
  | ';' => some .semicolon
  | '(' => some .leftParen
  | ')' => some .rightParen
  | _ => none

/-- The kind of a word. -/
def wordKind (word : List Char) : TokenKind :=
  if word = ['n', 'e', 'w'] then .new
  else if word = ['p', 'r', 'i', 'n', 't'] then .print
  else .identifier

/-! ## Pieces -/

/-- What a piece of text is. -/
inductive PieceKind where
  /-- A token. -/
  | token (kind : TokenKind)
  /-- Text that is skipped and stays on its line: blanks or a comment. -/
  | filler
  /-- A line end. -/
  | lineEnd
deriving DecidableEq

/-- A piece at the front of a text. -/
structure Piece where
  /-- What the piece is. -/
  kind : PieceKind
  /-- The piece itself. -/
  text : List Char
  /-- The text after it. -/
  rest : List Char

/-- The piece that a first character begins and that reaches as far as a class of
characters does. -/
def Piece.run (kind : List Char → PieceKind) (p : Char → Bool) (c : Char) (cs : List Char) : Piece :=
  ⟨kind (c :: cs.takeWhile p), c :: cs.takeWhile p, cs.dropWhile p⟩

/-- The piece at the front of the text `c :: cs`; none if `c` starts no piece. -/
def piece? (c : Char) (cs : List Char) : Option Piece :=
  if c.isDigit then some (.run (fun _ => .token .number) Char.isDigit c cs)
  else if isWordStart c then some (.run (fun word => .token (wordKind word)) isWordPart c cs)
  else if isBlank c then some (.run (fun _ => .filler) isBlank c cs)
  else if c = '\n' then some ⟨.lineEnd, [c], cs⟩
  else if c = '/' then
    if cs.head? = some '/' then some (.run (fun _ => .filler) (· != '\n') c cs) else none
  else (signKind? c).map fun kind => ⟨.token kind, [c], cs⟩

theorem Piece.length_rest_run (kind : List Char → PieceKind) (p : Char → Bool) (c : Char)
    (cs : List Char) : (Piece.run kind p c cs).rest.length ≤ cs.length :=
  (List.dropWhile_sublist p).length_le

/-- A piece takes at least one character. -/
theorem length_rest_lt {c : Char} {cs : List Char} {piece : Piece}
    (h : piece? c cs = some piece) : piece.rest.length < (c :: cs).length := by
  have hle : piece.rest.length ≤ cs.length := by
    unfold piece? at h
    split at h
    · exact Option.some.inj h ▸ Piece.length_rest_run ..
    split at h
    · exact Option.some.inj h ▸ Piece.length_rest_run ..
    split at h
    · exact Option.some.inj h ▸ Piece.length_rest_run ..
    split at h
    · exact Option.some.inj h ▸ Nat.le_refl _
    split at h
    · split at h
      · exact Option.some.inj h ▸ Piece.length_rest_run ..
      · cases h
    · obtain ⟨kind, _, rfl⟩ := Option.map_eq_some_iff.mp h
      exact Nat.le_refl _
  simpa using Nat.lt_succ_of_le hle

/-! ## Scanning -/

/-- A token at its mark. -/
structure Lexeme where
  /-- What the token is. -/
  kind : TokenKind
  /-- The text as it stands in the source. -/
  text : List Char
  /-- Where the text starts. -/
  mark : Mark
deriving DecidableEq

/-- The lexemes of a piece: itself if it is a token. -/
def Piece.lexemes (piece : Piece) (mark : Mark) : List Lexeme :=
  match piece.kind with
  | .token kind => [⟨kind, piece.text, mark⟩]
  | .filler => []
  | .lineEnd => []

/-- The mark after a piece. -/
def Piece.next (piece : Piece) (mark : Mark) : Mark :=
  match piece.kind with
  | .lineEnd => mark.nextLine
  | _ => mark.advance piece.text

/-- What a scan finds. -/
structure Scan where
  /-- The lexemes, in the order of the text. -/
  lexemes : List Lexeme
  /-- Where the scan stopped. -/
  stop : Mark
  /-- The character that starts no piece, if that is what it stopped at. -/
  stray : Option Char

/-- Cuts the text at a mark into pieces.  The lexemes found before it are given
in reverse. -/
def scanFrom (found : List Lexeme) (mark : Mark) (text : List Char) : Scan :=
  match text with
  | [] => ⟨found.reverse, mark, none⟩
  | c :: cs =>
      match _h : piece? c cs with
      | none => ⟨found.reverse, mark, some c⟩
      | some piece => scanFrom (piece.lexemes mark ++ found) (piece.next mark) piece.rest
termination_by text.length
decreasing_by exact length_rest_lt _h

/-- Cuts a text into pieces. -/
def scan (text : List Char) : Scan := scanFrom [] .start text

end SumScript
