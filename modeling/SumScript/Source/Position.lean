/-!
# Places in a source text

Readers count lines and characters, and a stored text is measured in bytes.  A
`Position` is a place as readers name it, from line 1 and column 1 on.  A `Mark`
is a place as a scanner meets it: the line, and the byte offsets of the line's
start and of the place itself.
-/

namespace SumScript

/-- A place as readers count it. -/
structure Position where
  /-- The line, from 1. -/
  line : Nat
  /-- The column in characters, from 1. -/
  column : Nat
deriving DecidableEq

/-- A place as a scanner counts it. -/
structure Mark where
  /-- The line, from 1. -/
  line : Nat
  /-- The number of bytes before the line. -/
  lineStart : Nat
  /-- The number of bytes before the place. -/
  offset : Nat
deriving DecidableEq

/-- The place where every text starts. -/
def Mark.start : Mark := ⟨1, 0, 0⟩

/-- The size of a text in bytes, encoded as UTF-8. -/
def byteLength (text : List Char) : Nat := text.foldl (fun n c => n + c.utf8Size) 0

/-- The mark after a text that stays on its line. -/
def Mark.advance (mark : Mark) (text : List Char) : Mark :=
  { mark with offset := mark.offset + byteLength text }

/-- The mark after a line end. -/
def Mark.nextLine (mark : Mark) : Mark :=
  let offset := mark.offset + byteLength ['\n']
  ⟨mark.line + 1, offset, offset⟩

end SumScript
