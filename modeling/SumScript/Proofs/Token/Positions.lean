import SumScript.Proofs.Source.Places
import SumScript.Proofs.Token.Reading

/-!
# Where tokens stand

`tokenize` puts marks to lexemes and finds columns with a cursor.  The same
tokens come of counting afresh at every piece: `placedFrom` gives each token its
index in the text and the position past the text before it, and `tokenize_eq`
says that these are the tokens that are read.

The proof follows the pieces.  A piece takes the mark from the place before it to
the place after it (`Cut.next_past`), and the cursor lags behind at the last
token, so what it still has to pass is part of the invariant (`locate_pieces`).
-/

namespace SumScript

/-! ## Pieces and places -/

/-- Only a line end holds one. -/
theorem Cut.lineEnd_notMem {c : Char} {cs : List Char} {piece : Piece} (h : Cut c cs piece)
    (hkind : piece.kind ≠ .lineEnd) : '\n' ∉ piece.text := by
  have run : ∀ {p : Char → Bool}, p '\n' = false → p c → '\n' ∉ c :: cs.takeWhile p := by
    intro p hp hc hmem
    rcases List.mem_cons.mp hmem with rfl | hmem
    · rw [hp] at hc
      cases hc
    · rw [List.mem_takeWhile_imp hmem] at hp
      cases hp
  cases h with
  | digits hc => exact run (by decide) hc
  | word hc => exact run (by decide) (isWordPart_of_isWordStart hc)
  | blanks hc => exact run (by decide) hc
  | lineEnd => exact absurd rfl hkind
  | comment => exact run (by decide) (by decide)
  | sign hsign =>
      intro hmem
      rw [List.mem_singleton] at hmem
      subst hmem
      cases hsign

theorem Cut.next_past {c : Char} {cs : List Char} {piece : Piece} (h : Cut c cs piece)
    (before : List Char) : piece.next (.past before) = .past (before ++ piece.text) := by
  cases hkind : piece.kind with
  | lineEnd =>
      have htext : piece.text = ['\n'] := by
        cases h with
        | lineEnd => rfl
        | digits | word | blanks | comment | sign => cases hkind
      rw [Piece.next, hkind, htext]
      exact Mark.past_nextLine before
  | token kind =>
      rw [Piece.next, hkind]
      exact Mark.past_advance (h.lineEnd_notMem (by simp [hkind])) before
  | filler =>
      rw [Piece.next, hkind]
      exact Mark.past_advance (h.lineEnd_notMem (by simp [hkind])) before

/-- The text that pieces make up. -/
def textOf (pieces : List Piece) : List Char := pieces.flatMap Piece.text

theorem textOf_append_rest (text : List Char) : textOf (pieces text).1 ++ (pieces text).2 = text := by
  induction text using pieces.induct with
  | case1 => simp [pieces_nil, textOf]
  | case2 c cs h => simp [pieces_stray h, textOf]
  | case3 c cs piece h ih =>
      have hcut := Cut.of_piece? h
      rw [pieces_cut hcut, textOf, List.flatMap_cons, List.append_assoc, ← hcut.text_append_rest]
      exact congrArg (piece.text ++ ·) ih

theorem textOf_of_read {text : List Char} (h : (pieces text).2 = []) :
    textOf (pieces text).1 = text := by
  simpa [h] using textOf_append_rest text

theorem after_past (text before : List Char) :
    (Mark.past before).after (pieces text).1 = .past (before ++ textOf (pieces text).1) := by
  induction text using pieces.induct generalizing before with
  | case1 => simp [pieces_nil, textOf, Mark.after]
  | case2 c cs h => simp [pieces_stray h, textOf, Mark.after]
  | case3 c cs piece h ih =>
      have hcut := Cut.of_piece? h
      rw [pieces_cut hcut, Mark.after, hcut.next_past, ih, List.append_assoc]
      rfl

/-! ## Tokens in their places -/

/-- The token of a piece after some text, with its index. -/
def Piece.placed (before : List Char) (piece : Piece) : List (Nat × Token) :=
  match piece.kind with
  | .token kind => [(before.length, ⟨kind, .ofList piece.text, .past before⟩)]
  | .filler => []
  | .lineEnd => []

/-- The tokens of pieces that stand one after the other, the first one after some
text. -/
def placedFrom (before : List Char) : List Piece → List (Nat × Token)
  | [] => []
  | piece :: pieces => piece.placed before ++ placedFrom (before ++ piece.text) pieces

/-- A piece is a token, or it has no place among the lexemes and tokens. -/
theorem Piece.token_or_skip (piece : Piece) :
    (∃ kind, piece.kind = .token kind) ∨
      ∀ mark before, piece.lexemes mark = [] ∧ piece.placed before = [] := by
  cases hkind : piece.kind with
  | token kind => exact Or.inl ⟨kind, rfl⟩
  | filler => exact Or.inr fun mark before => by simp [Piece.lexemes, Piece.placed, hkind]
  | lineEnd => exact Or.inr fun mark before => by simp [Piece.lexemes, Piece.placed, hkind]

/-- The cursor stands at some place before the pieces and has yet to pass the text
in between.  It moves up to each token, and has the text of the token to pass next. -/
theorem locate_pieces (text : List Char) (found : List Token) (before skipped : List Char) :
    ∃ before' skipped', before' ++ skipped' = before ++ skipped ++ textOf (pieces text).1 ∧
      locate found (.past before (skipped ++ text))
          (lexemesFrom (.past (before ++ skipped)) (pieces text).1) =
        (found.reverse ++ (placedFrom (before ++ skipped) (pieces text).1).map Prod.snd,
          .past before' (skipped' ++ (pieces text).2)) := by
  induction text using pieces.induct generalizing found before skipped with
  | case1 =>
      refine ⟨before, skipped, ?_, ?_⟩
      · simp [pieces_nil, textOf]
      · simp [pieces_nil, lexemesFrom, locate, placedFrom]
  | case2 c cs h =>
      refine ⟨before, skipped, ?_, ?_⟩
      · simp [pieces_stray h, textOf]
      · simp [pieces_stray h, lexemesFrom, locate, placedFrom]
  | case3 c cs piece h ih =>
      have hcut := Cut.of_piece? h
      have htext : textOf (piece :: (pieces piece.rest).1) =
          piece.text ++ textOf (pieces piece.rest).1 := rfl
      rw [pieces_cut hcut, htext, lexemesFrom, placedFrom, hcut.next_past]
      rcases piece.token_or_skip with ⟨kind, hkind⟩ | hskip
      · have hmove := ColumnCursor.moveTo_past before skipped (c :: cs)
        obtain ⟨before', skipped', hplace, hlocate⟩ :=
          ih (⟨kind, .ofList piece.text, .past (before ++ skipped)⟩ :: found)
            (before ++ skipped) piece.text
        rw [hcut.text_append_rest] at hlocate
        refine ⟨before', skipped', by simp [hplace], ?_⟩
        simp only [Piece.lexemes, Piece.placed, hkind, List.singleton_append, locate, hmove]
        exact hlocate.trans (by simp)
      · obtain ⟨before', skipped', hplace, hlocate⟩ := ih found before (skipped ++ piece.text)
        rw [← List.append_assoc, List.append_assoc skipped, hcut.text_append_rest] at hlocate
        refine ⟨before', skipped', by simp [hplace], ?_⟩
        rw [(hskip (.past (before ++ skipped)) (before ++ skipped)).1,
          (hskip (.past (before ++ skipped)) (before ++ skipped)).2]
        exact hlocate

/-- Reading a text gives the tokens of its pieces, each with the position past the
text before it, and the end of the text has the position past all of it.  A
character that starts no piece has the position past the pieces. -/
theorem tokenize_eq (source : String) :
    tokenize source =
      match (pieces source.toList).2 with
      | [] =>
          .ok ((placedFrom [] (pieces source.toList).1).map Prod.snd ++
            [⟨.endOfInput, "", .past source.toList⟩])
      | c :: _ => .error ⟨c, .past (textOf (pieces source.toList).1)⟩ := by
  obtain ⟨before, skipped, hplace, hpieces⟩ := locate_pieces source.toList [] [] []
  have hlocate : locate [] (.ofText source.toList) (lexemesFrom .start (pieces source.toList).1) =
      ((placedFrom [] (pieces source.toList).1).map Prod.snd,
        .past before (skipped ++ (pieces source.toList).2)) := hpieces
  have hstop : Mark.start.after (pieces source.toList).1 = .past (textOf (pieces source.toList).1) :=
    after_past source.toList []
  have hmove := ColumnCursor.moveTo_past before skipped (pieces source.toList).2
  have htext := textOf_append_rest source.toList
  rw [hplace, List.nil_append, List.nil_append] at hmove
  simp only [tokenize, scan, scanFrom_eq, hstop, List.reverse_nil, List.nil_append, hlocate, hmove]
  cases hrest : (pieces source.toList).2 with
  | nil =>
      rw [hrest, List.append_nil] at htext
      rw [htext]
      rfl
  | cons c rest => rfl

theorem tokenize_of_read {source : String} (h : (pieces source.toList).2 = []) :
    tokenize source =
      .ok ((placedFrom [] (pieces source.toList).1).map Prod.snd ++
        [⟨.endOfInput, "", .past source.toList⟩]) := by
  rw [tokenize_eq, h]

theorem tokenize_of_stray {source : String} {c : Char} {cs : List Char}
    (h : (pieces source.toList).2 = c :: cs) :
    tokenize source = .error ⟨c, .past (textOf (pieces source.toList).1)⟩ := by
  rw [tokenize_eq, h]

/-! ## Exact positions -/

/-- The token is written in the text at the index, and its position is the one past
the text before it. -/
structure Token.StandsAt (token : Token) (text : List Char) (i : Nat) : Prop where
  spelled : token.text.toList <+: text.drop i
  position : token.position = .past (text.take i)

/-- The second token starts later, and not before the end of the first. -/
def Precedes (first second : Nat × Token) : Prop :=
  first.1 < second.1 ∧ first.1 + first.2.text.length ≤ second.1

theorem Piece.mem_placed {before : List Char} {piece : Piece} {p : Nat × Token} :
    p ∈ piece.placed before ↔ ∃ kind, piece.kind = .token kind ∧
      p = (before.length, ⟨kind, .ofList piece.text, .past before⟩) := by
  cases hkind : piece.kind with
  | token kind => simp [Piece.placed, hkind]
  | filler => simp [Piece.placed, hkind]
  | lineEnd => simp [Piece.placed, hkind]

theorem Cut.text_length_pos {c : Char} {cs : List Char} {piece : Piece} (h : Cut c cs piece) :
    0 < piece.text.length := by
  cases h <;> exact Nat.succ_pos _

theorem Cut.standsAt {c : Char} {cs : List Char} {piece : Piece} (h : Cut c cs piece)
    (kind : TokenKind) (before : List Char) :
    Token.StandsAt ⟨kind, .ofList piece.text, .past before⟩ (before ++ c :: cs) before.length := by
  constructor
  · rw [String.toList_ofList, List.drop_left, ← h.text_append_rest]
    exact List.prefix_append _ _
  · rw [List.take_left]

theorem standsAt_of_mem_placedFrom (text before : List Char) :
    ∀ p ∈ placedFrom before (pieces text).1, p.2.StandsAt (before ++ text) p.1 := by
  induction text using pieces.induct generalizing before with
  | case1 => simp [pieces_nil, placedFrom]
  | case2 c cs h => simp [pieces_stray h, placedFrom]
  | case3 c cs piece h ih =>
      have hcut := Cut.of_piece? h
      intro p hp
      rw [pieces_cut hcut, placedFrom, List.mem_append] at hp
      rcases hp with hp | hp
      · obtain ⟨kind, _, rfl⟩ := Piece.mem_placed.mp hp
        exact hcut.standsAt kind before
      · have hstands := ih (before ++ piece.text) p hp
        rwa [List.append_assoc, hcut.text_append_rest] at hstands

/-- Tokens take up some text, and it lies between the start and the end of the
pieces. -/
theorem bounds_of_mem_placedFrom (text before : List Char) :
    ∀ p ∈ placedFrom before (pieces text).1,
      before.length ≤ p.1 ∧ 0 < p.2.text.length ∧
        p.1 + p.2.text.length ≤ (before ++ textOf (pieces text).1).length := by
  induction text using pieces.induct generalizing before with
  | case1 => simp [pieces_nil, placedFrom]
  | case2 c cs h => simp [pieces_stray h, placedFrom]
  | case3 c cs piece h ih =>
      have hcut := Cut.of_piece? h
      have htext : textOf (piece :: (pieces piece.rest).1) =
          piece.text ++ textOf (pieces piece.rest).1 := rfl
      intro p hp
      rw [pieces_cut hcut, placedFrom, List.mem_append] at hp
      rw [pieces_cut hcut, htext]
      rcases hp with hp | hp
      · obtain ⟨kind, _, rfl⟩ := Piece.mem_placed.mp hp
        have hpos := hcut.text_length_pos
        simp only [String.length_ofList, List.length_append]
        omega
      · have hbounds := ih (before ++ piece.text) p hp
        simp only [List.length_append] at hbounds ⊢
        omega

theorem pairwise_placedFrom (text before : List Char) :
    (placedFrom before (pieces text).1).Pairwise Precedes := by
  induction text using pieces.induct generalizing before with
  | case1 => simp [pieces_nil, placedFrom]
  | case2 c cs h => simp [pieces_stray h, placedFrom]
  | case3 c cs piece h ih =>
      have hcut := Cut.of_piece? h
      rw [pieces_cut hcut, placedFrom]
      refine List.pairwise_append.mpr ⟨?_, ih _, ?_⟩
      · cases hkind : piece.kind <;> simp [Piece.placed, hkind]
      · intro p hp q hq
        obtain ⟨kind, _, rfl⟩ := Piece.mem_placed.mp hp
        have hpos := hcut.text_length_pos
        have hstart := (bounds_of_mem_placedFrom piece.rest (before ++ piece.text) q hq).1
        simp only [Precedes, String.length_ofList, List.length_append] at hstart ⊢
        omega

/-- Positions are exact.  The tokens of a text stand in it one after the other, the
end marker at its end, and the position of each is the one past the text before
it.  A character that cannot be read is the first one that reading leaves over,
and its position is the one past the text before it. -/
theorem tokenize_positions (source : String) :
    match tokenize source with
    | .ok tokens =>
        ∃ placed : List (Nat × Token), placed.map Prod.snd = tokens ∧
          (∀ p ∈ placed, p.2.StandsAt source.toList p.1) ∧ placed.Pairwise Precedes ∧
          ∃ position, placed.getLast? = some (source.length, ⟨.endOfInput, "", position⟩)
    | .error e =>
        ∃ i, source.toList[i]? = some e.character ∧ e.position = .past (source.toList.take i) ∧
          (wordsOf source.toList).2 = source.toList.drop i := by
  have htext := textOf_append_rest source.toList
  rw [tokenize_eq]
  cases hrest : (pieces source.toList).2 with
  | nil =>
      rw [hrest, List.append_nil] at htext
      refine ⟨placedFrom [] (pieces source.toList).1 ++
        [(source.length, ⟨.endOfInput, "", .past source.toList⟩)], by simp, ?_, ?_, ?_⟩
      · intro p hp
        rcases List.mem_append.mp hp with hp | hp
        · exact standsAt_of_mem_placedFrom source.toList [] p hp
        · rw [List.mem_singleton.mp hp]
          exact ⟨List.nil_prefix, by rw [← String.length_toList, List.take_length]⟩
      · refine List.pairwise_append.mpr ⟨pairwise_placedFrom _ _, by simp, ?_⟩
        intro p hp q hq
        have hbounds := bounds_of_mem_placedFrom source.toList [] p hp
        rw [htext, List.nil_append, String.length_toList] at hbounds
        rw [List.mem_singleton.mp hq, Precedes]
        exact ⟨by omega, hbounds.2.2⟩
      · exact ⟨_, List.getLast?_concat⟩
  | cons c rest =>
      rw [hrest] at htext
      have hdrop : source.toList.drop (textOf (pieces source.toList).1).length = c :: rest :=
        (congrArg _ htext.symm).trans List.drop_left
      have htake : source.toList.take (textOf (pieces source.toList).1).length =
          textOf (pieces source.toList).1 :=
        (congrArg _ htext.symm).trans List.take_left
      refine ⟨(textOf (pieces source.toList).1).length, ?_, ?_, ?_⟩
      · rw [← List.head?_drop, hdrop]
        rfl
      · rw [htake]
      · rw [hdrop, wordsOf, hrest]

/-- A comment with a character of two bytes, a line end of two characters, and a tab
come before the name. -/
theorem positions_past_comment :
    (∃ i, Token.StandsAt ⟨.identifier, "x1", ⟨2, 2⟩⟩ "// é\r\n\tx1".toList i ∧
        i + "x1".length ≤ "// é\r\n\tx1".length) ∧
      ∃ i, "x\n é".toList[i]? = some 'é' ∧ (⟨2, 2⟩ : Position) = .past ("x\n é".toList.take i) := by
  have hread : tokenize "// é\r\n\tx1" =
      .ok [⟨.identifier, "x1", ⟨2, 2⟩⟩, ⟨.endOfInput, "", ⟨2, 4⟩⟩] := by
    decide +kernel
  have hstray : tokenize "x\n é" = .error ⟨'é', ⟨2, 2⟩⟩ := by
    decide +kernel
  have hplaces := tokenize_positions "// é\r\n\tx1"
  have hplace := tokenize_positions "x\n é"
  rw [hread] at hplaces
  rw [hstray] at hplace
  obtain ⟨placed, htokens, hstands, horder, position, hlast⟩ := hplaces
  obtain ⟨i, hget, hpast, _⟩ := hplace
  refine ⟨?_, i, hget, hpast⟩
  match placed, htokens with
  | [(j, first), (k, last)], htokens =>
      simp only [List.map_cons, List.map_nil, List.cons.injEq, and_true] at htokens
      obtain ⟨rfl, rfl⟩ := htokens
      have hprecedes := List.rel_of_pairwise_cons horder List.mem_cons_self
      cases hlast
      exact ⟨j, hstands _ List.mem_cons_self, hprecedes.2⟩

end SumScript
