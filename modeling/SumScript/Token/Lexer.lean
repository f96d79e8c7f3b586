import SumScript.Error
import SumScript.Source.Column
import SumScript.Token.Lexeme

/-!
# Reading tokens

`tokenize` reads a text into its tokens.  It scans the text into lexemes, which
hold byte offsets, and then walks a `ColumnCursor` along their marks to give
each its line and column.  The place where the scan stopped comes last: it is
the position of the end of the text, or of the character that starts no token.
-/

namespace SumScript

/-- The tokens of a list of lexemes, and the cursor at the last of them.  The
tokens found before are given in reverse. -/
def locate (found : List Token) (cursor : ColumnCursor) : List Lexeme → List Token × ColumnCursor
  | [] => (found.reverse, cursor)
  | lexeme :: lexemes =>
      let cursor := cursor.moveTo lexeme.mark
      let position := ⟨lexeme.mark.line, cursor.column⟩
      locate (⟨lexeme.kind, .ofList lexeme.text, position⟩ :: found) cursor lexemes

/-- The tokens of a text, with the end of the text as the last one; or the first
character that starts no token. -/
def tokenize (source : String) : Except LexError (List Token) :=
  let text := source.toList
  let found := scan text
  let (tokens, cursor) := locate [] (.ofText text) found.lexemes
  let position := ⟨found.stop.line, (cursor.moveTo found.stop).column⟩
  match found.stray with
  | none => .ok (tokens ++ [⟨.endOfInput, "", position⟩])
  | some character => .error ⟨character, position⟩

/-! ## Examples -/

example : (tokenize "x1=2x").toOption = some
    [⟨.identifier, "x1", ⟨1, 1⟩⟩, ⟨.equals, "=", ⟨1, 3⟩⟩, ⟨.number, "2", ⟨1, 4⟩⟩,
      ⟨.identifier, "x", ⟨1, 5⟩⟩, ⟨.endOfInput, "", ⟨1, 6⟩⟩] := by decide +kernel

/-- Columns count characters, and a comment may hold any. -/
example : (tokenize "// é\n\t; // é").toOption = some
    [⟨.semicolon, ";", ⟨2, 2⟩⟩, ⟨.endOfInput, "", ⟨2, 8⟩⟩] := by decide +kernel

end SumScript
