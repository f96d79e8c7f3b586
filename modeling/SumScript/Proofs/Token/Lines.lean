import SumScript.Proofs.Token.Reading

/-!
# Texts line by line

No piece reaches over a line end: blanks, words and digits do not hold one, and a
comment stops in front of it.  So a piece at the front of a text stays the same
when the text goes on with a line end and more (`Cut.append_lineEnd`).  The words
of two texts with a line end between them are the words of the first and then those
of the second (`wordsOf_append_lineEnd`), also if the first one ends in a word, in
digits or within a comment.
-/

namespace SumScript

/-- The piece in a text that goes on with a line end and more text. -/
def Piece.before (more : List Char) (piece : Piece) : Piece :=
  ⟨piece.kind, piece.text, piece.rest ++ '\n' :: more⟩

theorem Piece.run_append_lineEnd (kind : List Char → PieceKind) {p : Char → Bool}
    (hp : ¬ p '\n') (c : Char) (cs more : List Char) :
    Piece.run kind p c (cs ++ '\n' :: more) = (Piece.run kind p c cs).before more := by
  have hsplit : cs ++ '\n' :: more =
      cs.takeWhile p ++ (cs.dropWhile p ++ '\n' :: more) := by
    rw [← List.append_assoc, List.takeWhile_append_dropWhile]
  have hrest : ∀ d ∈ (cs.dropWhile p ++ '\n' :: more).head?, ¬ p d := by
    intro d hd
    cases hdrop : cs.dropWhile p with
    | nil =>
        rw [hdrop] at hd
        cases hd
        exact hp
    | cons first rest =>
        rw [hdrop] at hd
        exact not_head?_dropWhile p cs d (hdrop ▸ hd)
  rw [hsplit, Piece.run_append (fun _ => List.mem_takeWhile_imp) hrest]
  rfl

theorem Cut.append_lineEnd {c : Char} {cs : List Char} {piece : Piece} (h : Cut c cs piece)
    (more : List Char) : Cut c (cs ++ '\n' :: more) (piece.before more) := by
  cases h with
  | digits hc =>
      rw [← Piece.run_append_lineEnd _ (by decide)]
      exact .digits hc
  | word hc =>
      rw [← Piece.run_append_lineEnd _ (by decide)]
      exact .word hc
  | blanks hc =>
      rw [← Piece.run_append_lineEnd _ (by decide)]
      exact .blanks hc
  | lineEnd => exact .lineEnd
  | comment =>
      rw [← Piece.run_append_lineEnd _ (by decide)]
      exact .comment
  | sign hsign => exact .sign hsign

/-- A text that is read to its end has the same pieces in front of a line end, and the
pieces of what follows come after them. -/
theorem pieces_append_lineEnd (text more : List Char) (h : (pieces text).2 = []) :
    pieces (text ++ '\n' :: more) =
      ((pieces text).1.map (Piece.before more) ++ ⟨.lineEnd, ['\n'], more⟩ :: (pieces more).1,
        (pieces more).2) := by
  induction text using pieces.induct with
  | case1 =>
      rw [pieces_nil]
      exact pieces_cut .lineEnd
  | case2 c cs hstray =>
      rw [pieces_stray hstray] at h
      cases h
  | case3 c cs piece hpiece ih =>
      have hcut := Cut.of_piece? hpiece
      rw [pieces_cut hcut] at h ⊢
      rw [List.cons_append, pieces_cut (hcut.append_lineEnd more), Piece.before, ih h]
      rfl

theorem wordsOf_append_lineEnd {text : List Char} (h : (wordsOf text).2 = [])
    (more : List Char) :
    wordsOf (text ++ '\n' :: more) =
      ((wordsOf text).1 ++ (wordsOf more).1, (wordsOf more).2) := by
  have hwords : (pieces text).1.flatMap (Piece.words ∘ Piece.before more) =
      (pieces text).1.flatMap Piece.words := rfl
  rw [wordsOf, pieces_append_lineEnd text more h, List.flatMap_append, List.flatMap_map]
  exact congrArg (fun words => (words ++ (wordsOf more).1, (wordsOf more).2)) hwords

end SumScript
