import Mathlib.Data.List.DropRight
import SumScript.Source.Column

/-!
# Places counted afresh

The place after some text is determined by that text alone: its line ends give
the line, and the characters after the last of them give the column.
`Position.past` counts them, and `Mark.past` is the same place in bytes.

Scanners and cursors never count afresh.  A scanner moves its mark over one
stretch of text after the other (`Mark.past_advance`, `Mark.past_nextLine`), and
a cursor moves from mark to mark.  What the cursor holds is told by two texts:
the lines that it has left behind and the part of its line that it has passed.
It moves along its line or to a later one, and both times it ends at the place
that its mark stands for (`ColumnCursor.moveTo_past`).
-/

namespace SumScript

/-! ## Sizes -/

theorem foldl_utf8Size (size : Nat) (text : List Char) :
    text.foldl (fun n c => n + c.utf8Size) size = size + byteLength text := by
  induction text generalizing size with
  | nil => rfl
  | cons c text ih =>
      rw [byteLength, List.foldl_cons, List.foldl_cons, ih, ih (0 + c.utf8Size)]
      omega

theorem byteLength_nil : byteLength [] = 0 := rfl

theorem byteLength_cons (c : Char) (text : List Char) :
    byteLength (c :: text) = c.utf8Size + byteLength text := by
  rw [byteLength, List.foldl_cons, foldl_utf8Size, Nat.zero_add]

theorem byteLength_append (first second : List Char) :
    byteLength (first ++ second) = byteLength first + byteLength second := by
  rw [byteLength, List.foldl_append, foldl_utf8Size]
  rfl

theorem byteLength_eq_zero_iff {text : List Char} : byteLength text = 0 ↔ text = [] := by
  cases text with
  | nil => simp [byteLength_nil]
  | cons c text =>
      have hpos := c.utf8Size_pos
      simp only [byteLength_cons, reduceCtorEq, iff_false]
      omega

/-! ## Lines -/

/-- The text up to its last line end, which is included. -/
def fullLines (text : List Char) : List Char := text.rdropWhile (· != '\n')

/-- The text after its last line end. -/
def lastLine (text : List Char) : List Char := text.rtakeWhile (· != '\n')

theorem fullLines_append_lastLine (text : List Char) : fullLines text ++ lastLine text = text :=
  List.rdropWhile_append_rtakeWhile ..

theorem lastLine_append {more : List Char} (h : '\n' ∉ more) (text : List Char) :
    lastLine (text ++ more) = lastLine text ++ more := by
  have hmore : ∀ c ∈ more.reverse, (c != '\n') = true := by
    intro c hc
    exact bne_iff_ne.mpr (ne_of_mem_of_not_mem (List.mem_reverse.mp hc) h)
  rw [lastLine, List.rtakeWhile, List.reverse_append, List.takeWhile_append_of_pos hmore]
  simp [lastLine, List.rtakeWhile]

theorem fullLines_append {more : List Char} (h : '\n' ∉ more) (text : List Char) :
    fullLines (text ++ more) = fullLines text := by
  have hlines := fullLines_append_lastLine (text ++ more)
  rw [lastLine_append h, ← List.append_assoc] at hlines
  have htext := (List.append_cancel_right hlines).trans (fullLines_append_lastLine text).symm
  exact List.append_cancel_right htext

theorem lastLine_concat_lineEnd (text : List Char) : lastLine (text ++ ['\n']) = [] :=
  List.rtakeWhile_concat_neg _ _ _ (by decide)

theorem fullLines_concat_lineEnd (text : List Char) :
    fullLines (text ++ ['\n']) = text ++ ['\n'] :=
  List.rdropWhile_concat_neg _ _ _ (by decide)

/-- A text stays on its line, or it is some text with a line end and the beginning
of another line. -/
theorem notMem_or_exists_lineEnd (text : List Char) :
    '\n' ∉ text ∨ ∃ first line, text = first ++ ['\n'] ++ line ∧ '\n' ∉ line := by
  induction text with
  | nil => simp
  | cons c text ih =>
      rcases ih with hnot | ⟨first, line, rfl, hline⟩
      · by_cases hc : c = '\n'
        · exact Or.inr ⟨[], text, by simp [hc], hnot⟩
        · exact Or.inl (by simp [Ne.symm hc, hnot])
      · exact Or.inr ⟨c :: first, line, by simp, hline⟩

/-! ## Places -/

/-- The place after some text. -/
def Position.past (text : List Char) : Position :=
  ⟨1 + text.count '\n', 1 + (lastLine text).length⟩

/-- The place after some text, as a scanner counts it. -/
def Mark.past (text : List Char) : Mark :=
  ⟨1 + text.count '\n', byteLength (fullLines text), byteLength text⟩

theorem Mark.past_advance {more : List Char} (h : '\n' ∉ more) (text : List Char) :
    (Mark.past text).advance more = Mark.past (text ++ more) := by
  simp [Mark.past, Mark.advance, fullLines_append h, byteLength_append,
    List.count_eq_zero_of_not_mem h]

theorem Mark.past_nextLine (text : List Char) :
    (Mark.past text).nextLine = Mark.past (text ++ ['\n']) := by
  simp [Mark.past, Mark.nextLine, fullLines_concat_lineEnd, byteLength_append, Nat.add_assoc]

/-! ## Cursors -/

/-- A walk over the bytes of a text counts its characters and leaves what follows. -/
theorem passBytes_append (count : Nat) (text rest : List Char) :
    passBytes count (byteLength text) (text ++ rest) = (count + text.length, rest) := by
  induction text generalizing count with
  | nil => cases rest <;> simp [passBytes, byteLength_nil]
  | cons c text ih =>
      have hne : byteLength (c :: text) ≠ 0 := by simp [byteLength_eq_zero_iff]
      rw [List.cons_append, passBytes, if_neg hne, byteLength_cons, Nat.add_sub_cancel_left, ih]
      simp only [List.length_cons, Prod.mk.injEq, and_true]
      omega

/-- The cursor that has left some lines behind and passed the beginning of the
next one. -/
def ColumnCursor.on (lines line rest : List Char) : ColumnCursor :=
  ⟨byteLength lines, byteLength (lines ++ line), 1 + line.length, rest⟩

theorem ColumnCursor.toOffset_on (lines line more rest : List Char) :
    (ColumnCursor.on lines line (more ++ rest)).toOffset (byteLength (lines ++ (line ++ more))) =
      ColumnCursor.on lines (line ++ more) rest := by
  have hsize : byteLength (lines ++ (line ++ more)) - byteLength (lines ++ line) =
      byteLength more := by
    rw [← List.append_assoc, byteLength_append, Nat.add_sub_cancel_left]
  simp only [ColumnCursor.toOffset, ColumnCursor.on, hsize, passBytes_append, List.length_append,
    ColumnCursor.mk.injEq, true_and, and_true]
  omega

/-- The cursor at the start of a later line.  One that is at the start of its line and goes
no further does not move. -/
theorem ColumnCursor.toLine_on (lines line more rest : List Char) :
    (ColumnCursor.on lines line (more ++ rest)).toLine (byteLength (lines ++ (line ++ more))) =
      ColumnCursor.on (lines ++ (line ++ more)) [] rest := by
  unfold ColumnCursor.toLine
  split
  next hstart =>
    have hline : byteLength (line ++ more) = 0 := by
      simp only [ColumnCursor.on, byteLength_append] at hstart ⊢
      omega
    obtain ⟨rfl, rfl⟩ := List.append_eq_nil_iff.mp (byteLength_eq_zero_iff.mp hline)
    simp
  next =>
    have hsize : byteLength (lines ++ (line ++ more)) - byteLength (lines ++ line) =
        byteLength more := by
      rw [← List.append_assoc, byteLength_append, Nat.add_sub_cancel_left]
    simp [ColumnCursor.on, hsize, passBytes_append]

/-- A mark further on the same line. -/
theorem ColumnCursor.moveTo_line (number : Nat) (lines line more rest : List Char) :
    (ColumnCursor.on lines line (more ++ rest)).moveTo
        ⟨number, byteLength lines, byteLength (lines ++ (line ++ more))⟩ =
      ColumnCursor.on lines (line ++ more) rest := by
  have hline : (ColumnCursor.on lines line (more ++ rest)).toLine (byteLength lines) =
      ColumnCursor.on lines line (more ++ rest) := if_pos rfl
  rw [ColumnCursor.moveTo, hline]
  exact ColumnCursor.toOffset_on ..

/-- A mark on a line that starts at or after the place of the cursor. -/
theorem ColumnCursor.moveTo_laterLine (number : Nat) (lines line more next rest : List Char) :
    (ColumnCursor.on lines line (more ++ (next ++ rest))).moveTo
        ⟨number, byteLength (lines ++ (line ++ more)), byteLength (lines ++ (line ++ more) ++ next)⟩ =
      ColumnCursor.on (lines ++ (line ++ more)) next rest := by
  rw [ColumnCursor.moveTo, ColumnCursor.toLine_on]
  exact ColumnCursor.toOffset_on ..

/-- The cursor at the place after some text. -/
def ColumnCursor.past (text rest : List Char) : ColumnCursor :=
  .on (fullLines text) (lastLine text) rest

/-- The cursor finds every later place. -/
theorem ColumnCursor.moveTo_past (text more rest : List Char) :
    (ColumnCursor.past text (more ++ rest)).moveTo (Mark.past (text ++ more)) =
      ColumnCursor.past (text ++ more) rest := by
  have htext := fullLines_append_lastLine text
  rcases notMem_or_exists_lineEnd more with hmore | ⟨first, line, rfl, hline⟩
  · have hmove := ColumnCursor.moveTo_line (1 + (text ++ more).count '\n') (fullLines text)
      (lastLine text) more rest
    rw [← List.append_assoc, htext] at hmove
    rw [ColumnCursor.past, ColumnCursor.past, Mark.past, fullLines_append hmore,
      lastLine_append hmore]
    exact hmove
  · have hmove := ColumnCursor.moveTo_laterLine (1 + (text ++ (first ++ ['\n'] ++ line)).count '\n')
      (fullLines text) (lastLine text) (first ++ ['\n']) line rest
    have hlines : fullLines (text ++ (first ++ ['\n'] ++ line)) = text ++ (first ++ ['\n']) := by
      rw [← List.append_assoc, fullLines_append hline, ← List.append_assoc,
        fullLines_concat_lineEnd]
    have hlast : lastLine (text ++ (first ++ ['\n'] ++ line)) = line := by
      rw [← List.append_assoc, lastLine_append hline, ← List.append_assoc,
        lastLine_concat_lineEnd, List.nil_append]
    rw [← List.append_assoc (fullLines text), htext] at hmove
    rw [ColumnCursor.past, ColumnCursor.past, Mark.past, hlines, hlast,
      List.append_assoc _ line, ← List.append_assoc text _ line]
    exact hmove

end SumScript
