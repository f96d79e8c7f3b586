import Mathlib.Data.String.Basic
import SumScript.Proofs.Source.Places

/-!
# Columns counted afresh

A cursor may be sent to any series of marks that goes forward through a text, whether a
scanner met them or not.  `Admissible` says what the series has to keep to: line starts and
offsets never decrease, and a line that is new starts at or after all places of earlier
lines.  A mark need not stand right after the one before it, and need not stand at a token.

The column of a mark is a matter of its text alone: it is one more than the number of
characters between the start of the line and the place.  The cursor finds just that.  What
carries the proof is that the cursor stays *on* its text (`ColumnCursor.OnText`): the text
falls into the lines behind the cursor, the part of its line that it has passed, and what it
still has before it.  On its way to a mark the cursor first goes to the start of a new line
(`ColumnCursor.OnText.toLine`) and then along that line (`ColumnCursor.OnText.toOffset`).
Both times it stops between two characters, so what it walks over is a slice of the text
(`ColumnCursor.Slices`).
-/

namespace SumScript

/-! ## Slices of a text -/

/-- The offset stands between two characters of the text, or at one of its ends. -/
def IsBoundary (source : String) (offset : Nat) : Prop :=
  String.Pos.Raw.IsValid source ⟨offset⟩

/-- The text between two offsets. -/
def slice (source : String) (start stop : Nat) : String :=
  String.Pos.Raw.extract source ⟨start⟩ ⟨stop⟩

theorem byteLength_eq_utf8Len (text : List Char) : byteLength text = String.utf8Len text := by
  induction text with
  | nil => rfl
  | cons c text ih => rw [byteLength_cons, ih, String.utf8Len_cons, Nat.add_comm]

theorem isBoundary_iff {source : String} {offset : Nat} :
    IsBoundary source offset ↔
      ∃ before after, source.toList = before ++ after ∧ offset = byteLength before := by
  rw [IsBoundary, String.Pos.Raw.isValid_iff_exists_append]
  constructor
  · rintro ⟨before, after, rfl, hoffset⟩
    refine ⟨before.toList, after.toList, String.toList_append, ?_⟩
    rw [byteLength_eq_utf8Len, String.utf8Len_toList]
    exact congrArg String.Pos.Raw.byteIdx hoffset
  · rintro ⟨before, after, htext, rfl⟩
    refine ⟨.ofList before, .ofList after, ?_, ?_⟩
    · rw [← String.ofList_append, ← htext, String.ofList_toList]
    · rw [String.rawEndPos_ofList, byteLength_eq_utf8Len]

/-- A boundary behind some text lies in what follows that text. -/
theorem IsBoundary.exists_append {source : String} {offset : Nat} (h : IsBoundary source offset)
    {before rest : List Char} (htext : source.toList = before ++ rest)
    (hle : byteLength before ≤ offset) :
    ∃ more after, rest = more ++ after ∧ offset = byteLength (before ++ more) := by
  obtain ⟨before', after, htext', rfl⟩ := isBoundary_iff.mp h
  rw [htext] at htext'
  rcases List.append_eq_append_iff.mp htext' with ⟨more, rfl, rfl⟩ | ⟨more, rfl, rfl⟩
  · exact ⟨more, after, rfl, rfl⟩
  · have hmore : more = [] := by
      rw [byteLength_append] at hle
      exact byteLength_eq_zero_iff.mp (by omega)
    exact ⟨[], rest, rfl, by simp [hmore]⟩

theorem slice_eq {source : String} {before middle after : List Char}
    (htext : source.toList = before ++ (middle ++ after)) :
    slice source (byteLength before) (byteLength (before ++ middle)) = .ofList middle := by
  have hsource : source = .ofList (before ++ middle ++ after) := by
    rw [List.append_assoc, ← htext, String.ofList_toList]
  rw [slice, byteLength_append, byteLength_eq_utf8Len, byteLength_eq_utf8Len, hsource]
  exact String.extract_of_valid before middle after

/-! ## Series of marks -/

/-- The first mark may come before the second one.  A line that is new starts at or after
the place that was reached on another line. -/
@[mk_iff]
structure Mark.Precedes (first second : Mark) : Prop where
  lineStart : first.lineStart ≤ second.lineStart
  offset : first.offset ≤ second.offset
  laterLine : first.lineStart ≠ second.lineStart → first.offset ≤ second.lineStart

/-- The mark lies in the text, and no character reaches over its offsets. -/
@[mk_iff]
structure Mark.LiesIn (source : String) (mark : Mark) : Prop where
  ordered : mark.lineStart ≤ mark.offset
  within : mark.offset ≤ source.utf8ByteSize
  lineBoundary : IsBoundary source mark.lineStart
  boundary : IsBoundary source mark.offset

/-- A series of marks that a cursor can be sent to, one after the other. -/
structure Admissible (source : String) (marks : List Mark) : Prop where
  forward : marks.Pairwise Mark.Precedes
  inside : ∀ mark ∈ marks, mark.LiesIn source

theorem Admissible.sublist {source : String} {marks marks' : List Mark}
    (h : Admissible source marks) (hsub : marks'.Sublist marks) : Admissible source marks' :=
  ⟨h.forward.sublist hsub, fun mark hmark => h.inside mark (hsub.subset hmark)⟩

instance (source : String) (offset : Nat) : Decidable (IsBoundary source offset) :=
  inferInstanceAs (Decidable (String.Pos.Raw.IsValid _ _))

instance (first second : Mark) : Decidable (first.Precedes second) :=
  decidable_of_iff _ (Mark.precedes_iff first second).symm

instance (source : String) (mark : Mark) : Decidable (mark.LiesIn source) :=
  decidable_of_iff _ (Mark.liesIn_iff source mark).symm

/-! ## Cursors on their text -/

/-- The text is what the cursor has behind it, on earlier lines and on its own, and what it
has before it. -/
inductive ColumnCursor.OnText (source : String) : ColumnCursor → Prop where
  | on {lines line rest : List Char} : source.toList = lines ++ (line ++ rest) →
      OnText source (.on lines line rest)

/-- The walk of a cursor along its line, up to an offset, goes over a slice of the text. -/
structure ColumnCursor.Slices (source : String) (cursor : ColumnCursor) (offset : Nat) :
    Prop where
  ordered : cursor.offset ≤ offset
  within : offset ≤ source.utf8ByteSize
  starts : IsBoundary source cursor.offset
  stops : IsBoundary source offset
  walk : cursor.rest = (slice source cursor.offset offset).toList ++ (cursor.toOffset offset).rest

section

variable {source : String} {cursor : ColumnCursor}

theorem ColumnCursor.OnText.column_eq (h : cursor.OnText source) :
    cursor.column = 1 + (slice source cursor.lineStart cursor.offset).length := by
  cases h with
  | @on lines line rest htext =>
      have hslice := slice_eq htext
      simp [ColumnCursor.on, hslice]

/-- To get to a later line, the cursor skips the rest of its own and any lines in between. -/
theorem ColumnCursor.OnText.toLine (h : cursor.OnText source) {lineStart : Nat}
    (hboundary : IsBoundary source lineStart)
    (hlater : cursor.lineStart ≠ lineStart → cursor.offset ≤ lineStart) :
    (cursor.toLine lineStart).OnText source := by
  by_cases hline : cursor.lineStart = lineStart
  · rw [ColumnCursor.toLine, if_pos hline]
    exact h
  · cases h with
    | @on lines line rest htext =>
        rw [← List.append_assoc] at htext
        obtain ⟨more, after, rfl, rfl⟩ := hboundary.exists_append htext (hlater hline)
        rw [List.append_assoc lines, ColumnCursor.toLine_on]
        exact .on (by simp [htext])

theorem ColumnCursor.OnText.toOffset (h : cursor.OnText source) {offset : Nat}
    (hboundary : IsBoundary source offset) (hle : cursor.offset ≤ offset) :
    cursor.Slices source offset ∧ (cursor.toOffset offset).OnText source := by
  cases h with
  | @on lines line rest htext =>
      rw [← List.append_assoc] at htext
      obtain ⟨more, after, rfl, rfl⟩ := hboundary.exists_append htext hle
      have hmove := ColumnCursor.toOffset_on lines line more after
      have hslice := slice_eq htext
      rw [← List.append_assoc] at hmove
      refine ⟨⟨hle, hboundary.le_rawEndPos, ?_, hboundary, ?_⟩, ?_⟩
      · exact isBoundary_iff.mpr ⟨lines ++ line, more ++ after, htext, rfl⟩
      · rw [hmove]
        simp only [ColumnCursor.on, hslice, String.toList_ofList]
      · rw [hmove]
        exact .on (by simp [htext])

/-- One call: the cursor walks over a slice and stays on its text. -/
theorem ColumnCursor.OnText.moveTo (h : cursor.OnText source) {mark : Mark}
    (hmark : mark.LiesIn source) (hle : cursor.offset ≤ mark.offset)
    (hlater : cursor.lineStart ≠ mark.lineStart → cursor.offset ≤ mark.lineStart) :
    (cursor.toLine mark.lineStart).Slices source mark.offset ∧
      (cursor.moveTo mark).OnText source := by
  refine (h.toLine hmark.lineBoundary hlater).toOffset hmark.boundary ?_
  unfold ColumnCursor.toLine
  split
  next => exact hle
  next => exact hmark.ordered

end

theorem ColumnCursor.lineStart_moveTo (cursor : ColumnCursor) (mark : Mark) :
    (cursor.moveTo mark).lineStart = mark.lineStart := by
  simp only [ColumnCursor.moveTo, ColumnCursor.toOffset, ColumnCursor.toLine]
  split
  next hline => exact hline
  next => rfl

/-! ## Runs -/

/-- The cursor after it was sent to marks, from the start of the text on. -/
def ColumnCursor.after (source : String) (marks : List Mark) : ColumnCursor :=
  marks.foldl ColumnCursor.moveTo (.ofText source.toList)

theorem ColumnCursor.after_concat (source : String) (marks : List Mark) (mark : Mark) :
    ColumnCursor.after source (marks ++ [mark]) =
      (ColumnCursor.after source marks).moveTo mark := by
  simp [ColumnCursor.after]

/-- The cursor is never past the next mark of its series.  All that it remembers is the last
mark that it was sent to. -/
theorem Admissible.reach {source : String} {earlier : List Mark} {mark : Mark}
    (h : Admissible source (earlier ++ [mark])) :
    (ColumnCursor.after source earlier).offset ≤ mark.offset ∧
      ((ColumnCursor.after source earlier).lineStart ≠ mark.lineStart →
        (ColumnCursor.after source earlier).offset ≤ mark.lineStart) := by
  rcases List.eq_nil_or_concat earlier with rfl | ⟨before, last, rfl⟩
  · simp [ColumnCursor.after, ColumnCursor.ofText]
  · have hprecedes : last.Precedes mark := by
      have hpairs := (List.pairwise_append.mp h.forward).2.2
      exact hpairs last (by simp) mark (by simp)
    rw [List.concat_eq_append, ColumnCursor.after_concat, ColumnCursor.lineStart_moveTo]
    exact ⟨hprecedes.offset, hprecedes.laterLine⟩

theorem Admissible.onText_after {source : String} {marks : List Mark}
    (h : Admissible source marks) : (ColumnCursor.after source marks).OnText source := by
  induction marks using List.reverseRecOn with
  | nil => exact @ColumnCursor.OnText.on source [] [] source.toList rfl
  | append_singleton marks mark ih =>
      have honText := ih (h.sublist (List.sublist_append_left _ _))
      have hmark := h.inside mark (by simp)
      rw [ColumnCursor.after_concat]
      exact (honText.moveTo hmark h.reach.1 h.reach.2).2

/-- Every call on the way through an admissible series of marks walks over a slice of the
text, and the column that it gives is counted afresh. -/
theorem ColumnCursor.column_recounted {source : String} {marks : List Mark}
    (h : Admissible source marks) :
    ∀ earlier mark later, marks = earlier ++ mark :: later →
      ((ColumnCursor.after source earlier).toLine mark.lineStart).Slices source mark.offset ∧
        ((ColumnCursor.after source earlier).moveTo mark).column =
          1 + (slice source mark.lineStart mark.offset).length := by
  rintro earlier mark later rfl
  have hcalls : Admissible source (earlier ++ [mark]) :=
    h.sublist (List.Sublist.append_left (by simp) earlier)
  have honText := (hcalls.sublist (List.sublist_append_left _ _)).onText_after
  have hmark := hcalls.inside mark (by simp)
  obtain ⟨hslices, hmoved⟩ := honText.moveTo hmark hcalls.reach.1 hcalls.reach.2
  refine ⟨hslices, ?_⟩
  have hcolumn := hmoved.column_eq
  rwa [ColumnCursor.lineStart_moveTo] at hcolumn

/-- A text with a character of two bytes, an empty line and a character of four bytes. -/
def wideText : String := "aé\n\n😀b"

/-- Places in this text, one of them twice.  No place is on the empty line. -/
def wideMarks : List Mark := [⟨1, 0, 1⟩, ⟨1, 0, 1⟩, ⟨1, 0, 3⟩, ⟨3, 5, 9⟩, ⟨3, 5, 10⟩]

theorem ColumnCursor.column_wideMarks :
    Admissible wideText wideMarks ∧
      slice wideText 5 9 = "😀" ∧
      ((ColumnCursor.after wideText (wideMarks.take 3)).toLine 5).Slices wideText 9 ∧
      ((ColumnCursor.after wideText (wideMarks.take 3)).moveTo ⟨3, 5, 9⟩).column = 2 := by
  have hmarks : Admissible wideText wideMarks := ⟨by decide, by decide +kernel⟩
  have hslice : slice wideText 5 9 = "😀" := by decide +kernel
  have hcall := ColumnCursor.column_recounted hmarks (wideMarks.take 3) ⟨3, 5, 9⟩ [⟨3, 5, 10⟩] rfl
  refine ⟨hmarks, hslice, hcall.1, ?_⟩
  rw [hcall.2, hslice]
  rfl

end SumScript
