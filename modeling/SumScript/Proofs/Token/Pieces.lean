import SumScript.Token.Lexer

/-!
# The pieces of a text

`scanFrom` cuts pieces off a text and computes marks at the same time.  Here the
two are taken apart.  `pieces` is the cutting alone: the pieces in order, and
the text that is left when no further piece starts.  The marks follow from the
pieces (`scanFrom_eq`).  What a text says depends on the pieces only, so most
statements about reading tokens never speak of a mark.

`Cut` lists the ways in which a piece can be at the front of a text, and `piece?`
finds just these (`Cut.of_piece?`, `Cut.piece?`).
-/

namespace SumScript

/-! ## Classes of characters

Every character that starts a piece starts one sort of piece only.
-/

theorem isWordPart_of_isDigit {c : Char} (h : c.isDigit) : isWordPart c := by
  simp [isWordPart, Char.isAlphanum, h]

theorem isWordPart_of_isWordStart {c : Char} (h : isWordStart c) : isWordPart c := by
  simp only [isWordStart, Bool.or_eq_true] at h
  rcases h with h | h
  · simp [isWordPart, Char.isAlphanum, h]
  · simp [isWordPart, h]

theorem isAlpha_iff_toNat {c : Char} :
    c.isAlpha ↔ ('A'.toNat ≤ c.toNat ∧ c.toNat ≤ 'Z'.toNat) ∨
      ('a'.toNat ≤ c.toNat ∧ c.toNat ≤ 'z'.toNat) := by
  have halpha : c.isAlpha = (decide ('A'.val ≤ c.val ∧ c.val ≤ 'Z'.val) ||
      (decide ('a'.val ≤ c.val) && decide (c.val ≤ 'z'.val))) := rfl
  simp only [halpha, Bool.or_eq_true, Bool.and_eq_true, decide_eq_true_eq,
    UInt32.le_iff_toNat_le]
  rfl

theorem not_isDigit_of_isWordStart {c : Char} (h : isWordStart c) : ¬ c.isDigit := by
  intro hdigit
  obtain ⟨-, hle⟩ := Char.isDigit_iff_toNat.mp hdigit
  simp only [isWordStart, Bool.or_eq_true, isAlpha_iff_toNat, beq_iff_eq] at h
  rcases h with (⟨hge, -⟩ | ⟨hge, -⟩) | rfl
  · exact absurd (Nat.le_trans hge hle) (by decide)
  · exact absurd (Nat.le_trans hge hle) (by decide)
  · exact absurd hle (by decide)

theorem isBlank_iff {c : Char} : isBlank c ↔ c = ' ' ∨ c = '\t' ∨ c = '\r' := by
  simp [isBlank, or_assoc]

theorem not_isWordPart_of_isBlank {c : Char} (h : isBlank c) : ¬ isWordPart c := by
  rcases isBlank_iff.mp h with rfl | rfl | rfl <;> decide

/-- The signs, with the kinds of their tokens. -/
theorem signKind?_eq_some_iff {c : Char} {kind : TokenKind} :
    signKind? c = some kind ↔
      (c = '=' ∧ kind = .equals) ∨ (c = '+' ∧ kind = .plus) ∨ (c = '-' ∧ kind = .minus) ∨
        (c = ';' ∧ kind = .semicolon) ∨ (c = '(' ∧ kind = .leftParen) ∨
        (c = ')' ∧ kind = .rightParen) := by
  constructor
  · intro h
    unfold signKind? at h
    split at h <;> simp_all
  · rintro (⟨rfl, rfl⟩ | ⟨rfl, rfl⟩ | ⟨rfl, rfl⟩ | ⟨rfl, rfl⟩ | ⟨rfl, rfl⟩ | ⟨rfl, rfl⟩) <;> rfl

/-! ## The piece at the front -/

/-- `Cut c cs piece`: the text `c :: cs` has the piece at its front. -/
inductive Cut : Char → List Char → Piece → Prop where
  /-- Digits, as far as they reach. -/
  | digits {c : Char} {cs : List Char} : c.isDigit →
      Cut c cs (.run (fun _ => .token .number) Char.isDigit c cs)
  /-- A word, as far as it reaches. -/
  | word {c : Char} {cs : List Char} : isWordStart c →
      Cut c cs (.run (fun word => .token (wordKind word)) isWordPart c cs)
  /-- Blanks, as far as they reach. -/
  | blanks {c : Char} {cs : List Char} : isBlank c →
      Cut c cs (.run (fun _ => .filler) isBlank c cs)
  /-- A line end. -/
  | lineEnd {cs : List Char} : Cut '\n' cs ⟨.lineEnd, ['\n'], cs⟩
  /-- A comment, up to the end of its line. -/
  | comment {cs : List Char} :
      Cut '/' ('/' :: cs) (.run (fun _ => .filler) (· != '\n') '/' ('/' :: cs))
  /-- A sign. -/
  | sign {c : Char} {cs : List Char} {kind : TokenKind} : signKind? c = some kind →
      Cut c cs ⟨.token kind, [c], cs⟩

theorem Cut.of_piece? {c : Char} {cs : List Char} {piece : Piece}
    (h : piece? c cs = some piece) : Cut c cs piece := by
  unfold piece? at h
  split at h
  next hdigit => cases h; exact .digits hdigit
  split at h
  next hword => cases h; exact .word hword
  split at h
  next hblank => cases h; exact .blanks hblank
  split at h
  next hline => cases h; subst hline; exact .lineEnd
  split at h
  next hslash =>
    split at h
    next hnext =>
      obtain ⟨rest, rfl⟩ := List.head?_eq_some_iff.mp hnext
      cases h
      subst hslash
      exact .comment
    next => cases h
  next =>
    obtain ⟨kind, hkind, rfl⟩ := Option.map_eq_some_iff.mp h
    exact .sign hkind

theorem Cut.piece? {c : Char} {cs : List Char} {piece : Piece} (h : Cut c cs piece) :
    piece? c cs = some piece := by
  cases h with
  | digits h => simp [SumScript.piece?, h]
  | word h => simp [SumScript.piece?, h, not_isDigit_of_isWordStart h]
  | blanks h => rcases isBlank_iff.mp h with rfl | rfl | rfl <;> rfl
  | lineEnd => rfl
  | comment => rfl
  | sign h =>
      rcases signKind?_eq_some_iff.mp h with
        ⟨rfl, rfl⟩ | ⟨rfl, rfl⟩ | ⟨rfl, rfl⟩ | ⟨rfl, rfl⟩ | ⟨rfl, rfl⟩ | ⟨rfl, rfl⟩ <;> rfl

/-- A piece and what follows it make up the text. -/
theorem Cut.text_append_rest {c : Char} {cs : List Char} {piece : Piece} (h : Cut c cs piece) :
    piece.text ++ piece.rest = c :: cs := by
  cases h with
  | digits => simp [Piece.run]
  | word => simp [Piece.run]
  | blanks => simp [Piece.run]
  | lineEnd => rfl
  | comment => simp [Piece.run]
  | sign => rfl

/-! ## All pieces -/

/-- Cuts a text into pieces as long as there are any: the pieces in order, and the
text that is left. -/
def pieces (text : List Char) : List Piece × List Char :=
  match text with
  | [] => ([], [])
  | c :: cs =>
      match _h : piece? c cs with
      | none => ([], c :: cs)
      | some piece => (piece :: (pieces piece.rest).1, (pieces piece.rest).2)
termination_by text.length
decreasing_by all_goals exact length_rest_lt _h

theorem pieces_nil : pieces [] = ([], []) := by
  rw [pieces]

theorem pieces_stray {c : Char} {cs : List Char} (h : piece? c cs = none) :
    pieces (c :: cs) = ([], c :: cs) := by
  rw [pieces]
  split
  next => rfl
  next piece heq => rw [h] at heq; cases heq

theorem pieces_cut {c : Char} {cs : List Char} {piece : Piece} (h : Cut c cs piece) :
    pieces (c :: cs) = (piece :: (pieces piece.rest).1, (pieces piece.rest).2) := by
  rw [pieces]
  split
  next heq => rw [h.piece?] at heq; cases heq
  next found heq =>
    rw [h.piece?] at heq
    cases heq
    rfl

/-- No piece starts where the pieces end. -/
theorem piece?_of_pieces {text : List Char} {c : Char} {cs : List Char}
    (h : (pieces text).2 = c :: cs) : piece? c cs = none := by
  induction text using pieces.induct with
  | case1 =>
      rw [pieces_nil] at h
      cases h
  | case2 c' cs' hstray =>
      rw [pieces_stray hstray] at h
      cases h
      exact hstray
  | case3 c' cs' piece hpiece ih =>
      rw [pieces_cut (Cut.of_piece? hpiece)] at h
      exact ih h

/-! ## Marks -/

/-- The lexemes of pieces that stand one after the other from a mark on. -/
def lexemesFrom (mark : Mark) : List Piece → List Lexeme
  | [] => []
  | piece :: pieces => piece.lexemes mark ++ lexemesFrom (piece.next mark) pieces

/-- The mark after pieces that stand one after the other. -/
def Mark.after (mark : Mark) : List Piece → Mark
  | [] => mark
  | piece :: pieces => (piece.next mark).after pieces

theorem Piece.reverse_lexemes (piece : Piece) (mark : Mark) :
    (piece.lexemes mark).reverse = piece.lexemes mark := by
  unfold Piece.lexemes
  split <;> rfl

/-- A scan cuts its text into pieces and puts marks to them.  It stops at the
character that the pieces leave. -/
theorem scanFrom_eq (found : List Lexeme) (mark : Mark) (text : List Char) :
    scanFrom found mark text =
      ⟨found.reverse ++ lexemesFrom mark (pieces text).1, mark.after (pieces text).1,
        (pieces text).2.head?⟩ := by
  fun_induction scanFrom found mark text with
  | case1 found mark => simp [pieces_nil, lexemesFrom, Mark.after]
  | case2 found mark c cs h => simp [pieces_stray h, lexemesFrom, Mark.after]
  | case3 found mark c cs piece h ih =>
      rw [ih, pieces_cut (Cut.of_piece? h)]
      simp [lexemesFrom, Mark.after, Piece.reverse_lexemes]

end SumScript
