import SumScript.Source.Position

/-!
# Columns

A column is a number of characters, and a mark holds numbers of bytes.  The two
differ as soon as a line has a character beyond ASCII.  A `ColumnCursor` finds
the columns of a series of marks in one pass over the text.  It remembers the
place that it reached last, with the text from there on.  For a later place on
the same line it counts the characters between the two, and for a place on a
later line it first moves to the start of that line.  Places have to come in the
order of the text, and then no character is counted twice.
-/

namespace SumScript

/-- Walks over `bytes` bytes of a text.  Gives back the number of characters
met, added to `count`, and the text that is left. -/
def passBytes (count : Nat) : (bytes : Nat) → (text : List Char) → Nat × List Char
  | _, [] => (count, [])
  | bytes, c :: text =>
      if bytes = 0 then (count, c :: text) else passBytes (count + 1) (bytes - c.utf8Size) text

/-- The place that was reached last in a text. -/
structure ColumnCursor where
  /-- The number of bytes before the line. -/
  lineStart : Nat
  /-- The number of bytes before the place. -/
  offset : Nat
  /-- The column of the place. -/
  column : Nat
  /-- The text from the place on. -/
  rest : List Char

/-- The cursor at the start of a text. -/
def ColumnCursor.ofText (text : List Char) : ColumnCursor := ⟨0, 0, 1, text⟩

/-- The cursor on the line that starts at the given offset: unchanged if it is on
that line already, and otherwise at the line's first character. -/
def ColumnCursor.toLine (cursor : ColumnCursor) (lineStart : Nat) : ColumnCursor :=
  if cursor.lineStart = lineStart then cursor
  else ⟨lineStart, lineStart, 1, (passBytes 0 (lineStart - cursor.offset) cursor.rest).2⟩

/-- The cursor moved forward on its line. -/
def ColumnCursor.toOffset (cursor : ColumnCursor) (offset : Nat) : ColumnCursor :=
  let (column, rest) := passBytes cursor.column (offset - cursor.offset) cursor.rest
  ⟨cursor.lineStart, offset, column, rest⟩

/-- The cursor moved forward to a mark. -/
def ColumnCursor.moveTo (cursor : ColumnCursor) (mark : Mark) : ColumnCursor :=
  (cursor.toLine mark.lineStart).toOffset mark.offset

end SumScript
