import SumScript.Proofs.Token.Lines
import SumScript.Proofs.Token.Positions

/-!
# Tokens line by line

A line end takes back everything that the text before it did to positions but for
the number of the line (`Position.past_append_lineEnd`).  So the second of two texts
with a line end between them is read as it is by itself, only further down.  The
first one is read as before, whatever follows: its pieces do not reach over the line
end, and a character that starts no piece does not start one because of it
(`pieces_append_lineEnd_of_stray`).
-/

namespace SumScript

/-! ## Places further down -/

/-- The place so many lines further down. -/
def Position.down (lines : Nat) (position : Position) : Position :=
  ⟨position.line + lines, position.column⟩

/-- The token so many lines further down. -/
def Token.down (lines : Nat) (token : Token) : Token :=
  { token with position := token.position.down lines }

/-- The error so many lines further down. -/
def LexError.down (lines : Nat) (e : LexError) : LexError :=
  { e with position := e.position.down lines }

theorem lastLine_append_lineEnd (first text : List Char) :
    lastLine (first ++ '\n' :: text) = lastLine text := by
  rcases notMem_or_exists_lineEnd text with hnot | ⟨lines, line, rfl, hline⟩
  · have hlast := lastLine_append hnot (first ++ ['\n'])
    have hself := lastLine_append hnot []
    rw [lastLine_concat_lineEnd] at hlast
    rw [List.append_cons]
    exact hlast.trans hself.symm
  · have hlast := lastLine_append hline (first ++ '\n' :: lines ++ ['\n'])
    rw [lastLine_append hline, lastLine_concat_lineEnd]
    rw [lastLine_concat_lineEnd] at hlast
    simpa using hlast

theorem Position.past_append_lineEnd (first text : List Char) :
    Position.past (first ++ '\n' :: text) =
      (Position.past text).down (1 + first.count '\n') := by
  simp only [Position.past, Position.down, lastLine_append_lineEnd, List.count_append,
    List.count_cons_self, Position.mk.injEq, and_true]
  omega

/-! ## Pieces before a line end -/

/-- A piece does not start because of a line end that follows.  The second slash of a
comment is no line end, so it stands before it. -/
theorem Cut.of_append_lineEnd {c : Char} {cs more : List Char} {piece : Piece}
    (h : Cut c (cs ++ '\n' :: more) piece) : ∃ short, Cut c cs short := by
  generalize htext : cs ++ '\n' :: more = text at h
  cases h with
  | digits hc => exact ⟨_, .digits hc⟩
  | word hc => exact ⟨_, .word hc⟩
  | blanks hc => exact ⟨_, .blanks hc⟩
  | lineEnd => exact ⟨_, .lineEnd⟩
  | comment =>
      cases cs with
      | nil => simp at htext
      | cons second cs =>
          cases htext
          exact ⟨_, .comment⟩
  | sign hsign => exact ⟨_, .sign hsign⟩

theorem piece?_append_lineEnd {c : Char} {cs : List Char} (h : piece? c cs = none)
    (more : List Char) : piece? c (cs ++ '\n' :: more) = none := by
  cases hpiece : piece? c (cs ++ '\n' :: more) with
  | none => rfl
  | some piece =>
      obtain ⟨short, hshort⟩ := Cut.of_append_lineEnd (Cut.of_piece? hpiece)
      rw [hshort.piece?] at h
      cases h

/-- A text that cannot be read to its end is left at the same character in front of a
line end. -/
theorem pieces_append_lineEnd_of_stray (text more : List Char) (h : (pieces text).2 ≠ []) :
    pieces (text ++ '\n' :: more) =
      ((pieces text).1.map (Piece.before more), (pieces text).2 ++ '\n' :: more) := by
  induction text using pieces.induct with
  | case1 =>
      rw [pieces_nil] at h
      exact absurd rfl h
  | case2 c cs hstray =>
      rw [pieces_stray hstray, List.cons_append, pieces_stray (piece?_append_lineEnd hstray more)]
      rfl
  | case3 c cs piece hpiece ih =>
      have hcut := Cut.of_piece? hpiece
      rw [pieces_cut hcut] at h ⊢
      rw [List.cons_append, pieces_cut (hcut.append_lineEnd more), Piece.before, ih h]
      rfl

/-! ## Tokens before and after a line end -/

theorem textOf_map_before (more : List Char) (list : List Piece) :
    textOf (list.map (Piece.before more)) = textOf list := by
  rw [textOf, List.flatMap_map]
  rfl

theorem placedFrom_map_before (more before : List Char) (list : List Piece) :
    placedFrom before (list.map (Piece.before more)) = placedFrom before list := by
  induction list generalizing before with
  | nil => rfl
  | cons piece list ih =>
      rw [List.map_cons, placedFrom, placedFrom, ih]
      rfl

theorem placedFrom_append (before : List Char) (first second : List Piece) :
    placedFrom before (first ++ second) =
      placedFrom before first ++ placedFrom (before ++ textOf first) second := by
  induction first generalizing before with
  | nil => simp [placedFrom, textOf]
  | cons piece first ih =>
      simp only [List.cons_append, placedFrom, ih, textOf, List.flatMap_cons, List.append_assoc]

theorem Piece.placed_down (first before : List Char) (piece : Piece) :
    (piece.placed (first ++ '\n' :: before)).map Prod.snd =
      ((piece.placed before).map Prod.snd).map (Token.down (1 + first.count '\n')) := by
  cases hkind : piece.kind with
  | token kind => simp [Piece.placed, hkind, Token.down, Position.past_append_lineEnd]
  | filler => simp [Piece.placed, hkind]
  | lineEnd => simp [Piece.placed, hkind]

theorem placedFrom_down (first before : List Char) (list : List Piece) :
    (placedFrom (first ++ '\n' :: before) list).map Prod.snd =
      ((placedFrom before list).map Prod.snd).map (Token.down (1 + first.count '\n')) := by
  induction list generalizing before with
  | nil => rfl
  | cons piece list ih =>
      rw [placedFrom, placedFrom, List.append_assoc, List.cons_append]
      simp only [List.map_append, Piece.placed_down, ih]

/-- The tokens of the pieces of two texts with a line end between them. -/
theorem map_placedFrom_append_lineEnd {first : List Char} (h : (pieces first).2 = [])
    (second : List Char) :
    (placedFrom [] (pieces (first ++ '\n' :: second)).1).map Prod.snd =
      (placedFrom [] (pieces first).1).map Prod.snd ++
        ((placedFrom [] (pieces second).1).map Prod.snd).map
          (Token.down (1 + first.count '\n')) := by
  rw [pieces_append_lineEnd first second h, placedFrom_append, placedFrom_map_before,
    textOf_map_before, textOf_of_read h, List.map_append, List.nil_append]
  exact congrArg _ (placedFrom_down first [] (pieces second).1)

theorem textOf_append_lineEnd {first : List Char} (h : (pieces first).2 = [])
    (second : List Char) :
    textOf (pieces (first ++ '\n' :: second)).1 = first ++ '\n' :: textOf (pieces second).1 := by
  rw [pieces_append_lineEnd first second h, textOf, List.flatMap_append, ← textOf,
    textOf_map_before, textOf_of_read h]
  rfl

/-! ## Joined texts -/

/-- Reading is local to lines.  A text with an error in its first part is read as that
part by itself.  Otherwise the end marker of the first part goes, and the second part
gives its own tokens, or its own error, as many lines further down as the first part
has. -/
theorem tokenize_joined (first second : String) :
    match tokenize first with
    | .error e => tokenize (first ++ "\n" ++ second) = .error e
    | .ok tokens =>
        ∃ words position, tokens = words ++ [⟨.endOfInput, "", position⟩] ∧
          tokenize (first ++ "\n" ++ second) =
            match tokenize second with
            | .error e => .error (e.down (1 + first.toList.count '\n'))
            | .ok tokens' =>
                .ok (words ++ tokens'.map (Token.down (1 + first.toList.count '\n'))) := by
  have htext : (first ++ "\n" ++ second).toList = first.toList ++ '\n' :: second.toList := by
    simp
  cases hfirst : (pieces first.toList).2 with
  | cons c cs =>
      have hpieces := pieces_append_lineEnd_of_stray first.toList second.toList (by simp [hfirst])
      rw [← htext, hfirst, List.cons_append] at hpieces
      have herror := tokenize_of_stray (congrArg Prod.snd hpieces)
      rw [hpieces, textOf_map_before] at herror
      rw [tokenize_of_stray hfirst]
      exact herror
  | nil =>
      have hrest := congrArg Prod.snd (pieces_append_lineEnd first.toList second.toList hfirst)
      rw [← htext] at hrest
      rw [tokenize_of_read hfirst]
      refine ⟨_, _, rfl, ?_⟩
      cases hsecond : (pieces second.toList).2 with
      | cons c cs =>
          rw [tokenize_of_stray (hrest.trans hsecond), tokenize_of_stray hsecond, htext,
            textOf_append_lineEnd hfirst, Position.past_append_lineEnd]
          rfl
      | nil =>
          rw [tokenize_of_read (hrest.trans hsecond), tokenize_of_read hsecond, htext,
            map_placedFrom_append_lineEnd hfirst, Position.past_append_lineEnd, List.append_assoc]
          simp [Token.down]

/-- The first text ends within a comment, and the lines of the second one count on. -/
theorem tokenize_commentedLine :
    tokenize "x// é" = .ok [⟨.identifier, "x", ⟨1, 1⟩⟩, ⟨.endOfInput, "", ⟨1, 6⟩⟩] ∧
      tokenize ("x// é" ++ "\n" ++ " 1\n;") =
        .ok [⟨.identifier, "x", ⟨1, 1⟩⟩, ⟨.number, "1", ⟨2, 2⟩⟩, ⟨.semicolon, ";", ⟨3, 1⟩⟩,
          ⟨.endOfInput, "", ⟨3, 2⟩⟩] ∧
      tokenize ("x// é" ++ "\n" ++ "1\n é") = .error ⟨'é', ⟨3, 2⟩⟩ := by
  have hfirst : tokenize "x// é" =
      .ok [⟨.identifier, "x", ⟨1, 1⟩⟩, ⟨.endOfInput, "", ⟨1, 6⟩⟩] := by
    decide +kernel
  have hsecond : tokenize " 1\n;" = .ok [⟨.number, "1", ⟨1, 2⟩⟩, ⟨.semicolon, ";", ⟨2, 1⟩⟩,
      ⟨.endOfInput, "", ⟨2, 2⟩⟩] := by
    decide +kernel
  have hstray : tokenize "1\n é" = .error ⟨'é', ⟨2, 2⟩⟩ := by decide +kernel
  have hjoined := tokenize_joined "x// é" " 1\n;"
  have herror := tokenize_joined "x// é" "1\n é"
  rw [hfirst, hsecond] at hjoined
  rw [hfirst, hstray] at herror
  obtain ⟨words, position, hwords, hjoined⟩ := hjoined
  obtain ⟨_, _, _, herror⟩ := herror
  have hbefore := congrArg List.dropLast hwords
  rw [List.dropLast_concat] at hbefore
  subst hbefore
  exact ⟨hfirst, hjoined, herror⟩

end SumScript
