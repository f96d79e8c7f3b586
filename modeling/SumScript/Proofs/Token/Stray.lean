import SumScript.Proofs.Token.Joined

/-!
# Characters that start no token

Reading fails at one character of a text.  `StrayAt` says which one it is and does
not speak of pieces: the text before the character can be read by itself and does not
end within a comment, and the character is one that only comments hold.

The character is the one that the pieces leave over.  In one direction, the pieces
before it are the pieces of the text before it (`pieces_textOf`), and a comment among
them comes to an end, since otherwise it would have taken the character as well
(`slash_notMem_lastLine`).  In the other direction, what follows a text that can be
read is read as if it followed the last gap of that text (`exists_lastGap`).
An open comment takes it in, and a closed gap leaves a stray character alone.
-/

namespace SumScript

/-! ## Characters -/

/-- A character that is no part of a token, no blank and no line end. -/
def IsForeign (c : Char) : Prop :=
  ¬ c.isAlpha ∧ ¬ c.isDigit ∧ c ∉ ['_', '=', '+', '-', ';', '(', ')', ' ', '\t', '\r', '\n']

instance (c : Char) : Decidable (IsForeign c) := inferInstanceAs (Decidable (_ ∧ _ ∧ _))

theorem exists_cut_of_not_isForeign {c : Char} (h : ¬ IsForeign c) (cs : List Char) :
    ∃ piece, Cut c cs piece := by
  by_cases halpha : c.isAlpha
  · exact ⟨_, .word (by simp [isWordStart, halpha])⟩
  by_cases hdigit : c.isDigit
  · exact ⟨_, .digits hdigit⟩
  have hmem : c ∈ ['_', '=', '+', '-', ';', '(', ')', ' ', '\t', '\r', '\n'] := by
    by_contra hnot
    exact h ⟨halpha, hdigit, hnot⟩
  simp only [List.mem_cons, List.not_mem_nil, or_false] at hmem
  rcases hmem with rfl | rfl | rfl | rfl | rfl | rfl | rfl | rfl | rfl | rfl | rfl
  · exact ⟨_, .word rfl⟩
  · exact ⟨_, .sign rfl⟩
  · exact ⟨_, .sign rfl⟩
  · exact ⟨_, .sign rfl⟩
  · exact ⟨_, .sign rfl⟩
  · exact ⟨_, .sign rfl⟩
  · exact ⟨_, .sign rfl⟩
  · exact ⟨_, .blanks rfl⟩
  · exact ⟨_, .blanks rfl⟩
  · exact ⟨_, .blanks rfl⟩
  · exact ⟨_, .lineEnd⟩

/-- Of the foreign characters only a slash starts a piece, and only before another. -/
theorem Cut.comment_of_isForeign {c : Char} {cs : List Char} {piece : Piece} (h : Cut c cs piece)
    (hc : IsForeign c) : c = '/' ∧ cs.head? = some '/' := by
  obtain ⟨halpha, hdigit, hmem⟩ := hc
  cases h with
  | digits hc => exact absurd hc hdigit
  | word hc =>
      simp only [isWordStart, halpha, Bool.false_or, beq_iff_eq] at hc
      subst hc
      exact absurd (by decide) hmem
  | blanks hc =>
      rcases isBlank_iff.mp hc with rfl | rfl | rfl <;> exact absurd (by decide) hmem
  | lineEnd => exact absurd (by decide) hmem
  | comment => exact ⟨rfl, rfl⟩
  | sign hsign =>
      rcases signKind?_eq_some_iff.mp hsign with
        ⟨rfl, -⟩ | ⟨rfl, -⟩ | ⟨rfl, -⟩ | ⟨rfl, -⟩ | ⟨rfl, -⟩ | ⟨rfl, -⟩ <;>
        exact absurd (by decide) hmem

theorem piece?_eq_none_iff {c : Char} {cs : List Char} :
    piece? c cs = none ↔ IsForeign c ∧ ¬ (c = '/' ∧ cs.head? = some '/') := by
  constructor
  · intro h
    have hnone : ∀ piece, ¬ Cut c cs piece := by
      intro piece hcut
      rw [hcut.piece?] at h
      cases h
    constructor
    · by_contra hc
      obtain ⟨piece, hcut⟩ := exists_cut_of_not_isForeign hc cs
      exact hnone piece hcut
    · rintro ⟨rfl, hnext⟩
      obtain ⟨rest, rfl⟩ := List.head?_eq_some_iff.mp hnext
      exact hnone _ .comment
  · rintro ⟨hc, hnext⟩
    cases hpiece : piece? c cs with
    | none => rfl
    | some piece => exact absurd ((Cut.of_piece? hpiece).comment_of_isForeign hc) hnext

theorem not_isWordPart_of_isForeign {c : Char} (h : IsForeign c) : ¬ isWordPart c := by
  obtain ⟨halpha, hdigit, hmem⟩ := h
  simp only [isWordPart, Char.isAlphanum, halpha, hdigit, Bool.false_or, beq_iff_eq,
    Bool.or_false]
  rintro rfl
  exact hmem (by decide)

/-- Beyond ASCII there are no tokens and no blanks. -/
theorem isForeign_of_le {c : Char} (h : 128 ≤ c.toNat) : IsForeign c := by
  refine ⟨?_, ?_, ?_⟩
  · intro halpha
    have hupper : 'Z'.toNat = 90 := rfl
    have hlower : 'z'.toNat = 122 := rfl
    have hbounds := isAlpha_iff_toNat.mp halpha
    omega
  · intro hdigit
    have hnine : '9'.toNat = 57 := rfl
    have hbounds := Char.isDigit_iff_toNat.mp hdigit
    omega
  · intro hmem
    have hall : ['_', '=', '+', '-', ';', '(', ')', ' ', '\t', '\r', '\n'].all
        (·.toNat < 128) := by decide
    have hsmall : c.toNat < 128 := of_decide_eq_true (List.all_eq_true.mp hall c hmem)
    omega

/-! ## Comments that are open -/

/-- The last line of the text has a comment, which goes on after the text. -/
def InComment (text : List Char) : Prop := ['/', '/'] <:+: lastLine text

instance (text : List Char) : Decidable (InComment text) := inferInstanceAs (Decidable (_ <:+: _))

/-- The last line of two texts is that of the second, unless this one stays on its
line. -/
theorem lastLine_append_cases (first second : List Char) :
    ('\n' ∉ second ∧ lastLine second = second ∧
        lastLine (first ++ second) = lastLine first ++ second) ∨
      ('\n' ∈ second ∧ lastLine (first ++ second) = lastLine second) := by
  rcases notMem_or_exists_lineEnd second with hnot | ⟨lines, line, rfl, hline⟩
  · exact Or.inl ⟨hnot, lastLine_append hnot [], lastLine_append hnot first⟩
  · refine Or.inr ⟨by simp, ?_⟩
    have hfirst := lastLine_append_lineEnd (first ++ lines) line
    have hsecond := lastLine_append_lineEnd lines line
    rw [List.append_assoc lines, List.singleton_append, hsecond, ← List.append_assoc, hfirst]

theorem InComment.append {second : List Char} (h : InComment second) (first : List Char) :
    InComment (first ++ second) := by
  rcases lastLine_append_cases first second with ⟨-, hsecond, hlast⟩ | ⟨-, hlast⟩
  · rw [InComment, hlast]
    rw [InComment, hsecond] at h
    exact List.infix_append_of_infix_right h
  · rw [InComment, hlast]
    exact h

theorem inComment_of_comment {line : List Char} (h : '\n' ∉ line) (text : List Char) :
    InComment (text ++ '/' :: '/' :: line) := by
  have hline : '\n' ∉ '/' :: '/' :: line := by simp [h]
  refine InComment.append ?_ text
  rw [InComment, ← List.nil_append ('/' :: '/' :: line), lastLine_append hline]
  exact ⟨[], line, rfl⟩

/-! ## Pieces before a stray character -/

theorem Piece.run_of_rest {kind : List Char → PieceKind} {p : Char → Bool} {c : Char}
    {cs rest : List Char} (hrest : ∀ d ∈ rest.head?, d ∈ (Piece.run kind p c cs).rest.head?) :
    Piece.run kind p c (cs.takeWhile p ++ rest) =
      ⟨(Piece.run kind p c cs).kind, (Piece.run kind p c cs).text, rest⟩ :=
  Piece.run_append (fun _ => List.mem_takeWhile_imp)
    fun d hd => not_head?_dropWhile p cs d (hrest d hd)

/-- A piece stays the same as long as what follows it begins alike, or if nothing
follows any more. -/
theorem Cut.of_rest {c : Char} {cs rest : List Char} {piece : Piece} (h : Cut c cs piece)
    (hrest : ∀ d ∈ rest.head?, d ∈ piece.rest.head?) :
    ∃ cs', piece.text ++ rest = c :: cs' ∧ Cut c cs' ⟨piece.kind, piece.text, rest⟩ := by
  cases h with
  | digits hc =>
      rw [← Piece.run_of_rest hrest]
      exact ⟨_, rfl, .digits hc⟩
  | word hc =>
      rw [← Piece.run_of_rest hrest]
      exact ⟨_, rfl, .word hc⟩
  | blanks hc =>
      rw [← Piece.run_of_rest hrest]
      exact ⟨_, rfl, .blanks hc⟩
  | lineEnd => exact ⟨_, rfl, .lineEnd⟩
  | comment =>
      rw [← Piece.run_of_rest hrest]
      exact ⟨_, rfl, .comment⟩
  | sign hsign => exact ⟨_, rfl, .sign hsign⟩

/-- The text that a reading covers is read to its end by itself. -/
theorem pieces_textOf (text : List Char) : (pieces (textOf (pieces text).1)).2 = [] := by
  induction text using pieces.induct with
  | case1 => simp [pieces_nil, textOf]
  | case2 c cs h => simp [pieces_stray h, pieces_nil, textOf]
  | case3 c cs piece h ih =>
      have hcut := Cut.of_piece? h
      have hrest : ∀ d ∈ (textOf (pieces piece.rest).1).head?, d ∈ piece.rest.head? := by
        intro d hd
        rw [← textOf_append_rest piece.rest, List.head?_append, Option.mem_def.mp hd]
        rfl
      obtain ⟨cs', htext, hcut'⟩ := hcut.of_rest hrest
      rw [pieces_cut hcut, textOf, List.flatMap_cons, ← textOf, htext, pieces_cut hcut']
      exact ih

/-- Only comments hold a slash, and they reach up to a line end. -/
theorem Cut.lineEnd_of_slash {c : Char} {cs : List Char} {piece : Piece} (h : Cut c cs piece)
    (hslash : '/' ∈ piece.text) : ∀ d ∈ piece.rest.head?, d = '\n' := by
  have run : ∀ {p : Char → Bool}, p '/' = false → p c → '/' ∉ c :: cs.takeWhile p := by
    intro p hp hc hmem
    rcases List.mem_cons.mp hmem with rfl | hmem
    · rw [hp] at hc
      cases hc
    · rw [List.mem_takeWhile_imp hmem] at hp
      cases hp
  cases h with
  | digits hc => exact absurd hslash (run (by decide) hc)
  | word hc => exact absurd hslash (run (by decide) (isWordPart_of_isWordStart hc))
  | blanks hc => exact absurd hslash (run (by decide) hc)
  | lineEnd => simp at hslash
  | comment =>
      intro d hd
      simpa using not_head?_dropWhile _ _ d hd
  | sign hsign =>
      rw [List.mem_singleton] at hslash
      subst hslash
      cases hsign

theorem lastLine_subset (text : List Char) : lastLine text ⊆ text :=
  (List.rtakeWhile_suffix _ text).subset

/-- Before a character that starts no piece, no comment is open.  The piece after a comment
is the line end that follows it. -/
theorem slash_notMem_lastLine {text : List Char} (h : (pieces text).2 ≠ []) :
    '/' ∉ lastLine (textOf (pieces text).1) := by
  induction text using pieces.induct with
  | case1 => exact absurd (by rw [pieces_nil]) h
  | case2 c cs hstray => simp [pieces_stray hstray, textOf, lastLine]
  | case3 c cs piece hpiece ih =>
      have hcut := Cut.of_piece? hpiece
      rw [pieces_cut hcut] at h ⊢
      rw [textOf, List.flatMap_cons, ← textOf]
      rcases lastLine_append_cases piece.text (textOf (pieces piece.rest).1) with
        ⟨hline, hsame, hlast⟩ | ⟨-, hlast⟩
      · rw [hlast, List.mem_append, not_or]
        refine ⟨fun hslash => hline ?_, hsame ▸ ih h⟩
        obtain ⟨d, rest, hrest⟩ := List.exists_cons_of_ne_nil
          fun hnil : piece.rest = [] => h (by rw [hnil, pieces_nil])
        have hd := hcut.lineEnd_of_slash (lastLine_subset _ hslash) d (by rw [hrest]; rfl)
        rw [hrest, hd, pieces_cut .lineEnd]
        exact List.mem_cons_self
      · rw [hlast]
        exact ih h

/-! ## What follows a text -/

/-- What follows a text that can be read is read as if it followed the last gap of the
text, as long as it does not make the last word longer. -/
theorem exists_lastGap {lead text : List Char} {words : List (TokenKind × String)}
    (h : Written lead words text) :
    ∃ gap, FinalTrivia gap ∧ gap <:+ text ∧
      ∀ more : List Char, (gap = [] → ∀ c ∈ more.head?, ¬ isWordPart c) →
        wordsOf (text ++ more) =
          (words ++ (wordsOf (gap ++ more)).1, (wordsOf (gap ++ more)).2) := by
  induction h with
  | @nil gap hgap => exact ⟨gap, hgap, List.suffix_refl gap, fun more _ => rfl⟩
  | @cons lead next text kind word words hlead hspells hrest hjoins ih =>
      obtain ⟨gap, hgap, hsuffix, hread⟩ := ih
      refine ⟨gap, hgap, ?_, fun more hmore => ?_⟩
      · rw [← List.append_assoc]
        exact hsuffix.trans (List.suffix_append _ _)
      · have hend : ∀ c ∈ (text ++ more).head?, ¬ kind.extendsBy c := by
          cases text with
          | nil =>
              intro c hc hextends
              exact hmore (List.suffix_nil.mp hsuffix) c hc
                (TokenKind.isWordPart_of_extendsBy hextends)
          | cons d text => exact (hrest.not_extendsBy_iff kind).mpr hjoins
        rw [List.append_assoc, List.append_assoc, wordsOf_trivia hlead, wordsOf_word hspells hend,
          hread more hmore]
        rfl

theorem wordsOf_of_foreign {c : Char} {cs : List Char} (h : IsForeign c)
    (hnext : ¬ (c = '/' ∧ cs.head? = some '/')) : wordsOf (c :: cs) = ([], c :: cs) := by
  rw [wordsOf, pieces_stray (piece?_eq_none_iff.mpr ⟨h, hnext⟩)]
  rfl

theorem wordsOf_append_foreign {lead text : List Char} {words : List (TokenKind × String)}
    (h : Written lead words text) (houtside : ¬ InComment text) {c : Char} {cs : List Char}
    (hc : IsForeign c) (hnext : ¬ (c = '/' ∧ cs.head? = some '/')) :
    wordsOf (text ++ c :: cs) = (words, c :: cs) := by
  obtain ⟨gap, hgap, ⟨before, hsuffix⟩, hread⟩ := exists_lastGap h
  have hfirst : ∀ d ∈ (c :: cs).head?, ¬ isWordPart d := by
    rintro d ⟨⟩
    exact not_isWordPart_of_isForeign hc
  rw [hread _ fun _ => hfirst]
  cases hgap with
  | closed htrivia => rw [wordsOf_trivia htrivia, wordsOf_of_foreign hc hnext, List.append_nil]
  | comment _ hline =>
      rw [← hsuffix] at houtside
      exact absurd ((inComment_of_comment hline _).append before) houtside

/-- The pieces cover the text up to the character that they leave over. -/
theorem textOf_of_stray {before : List Char} {c : Char} {cs : List Char}
    (h : (pieces (before ++ c :: cs)).2 = c :: cs) :
    textOf (pieces (before ++ c :: cs)).1 = before := by
  have htext := textOf_append_rest (before ++ c :: cs)
  rw [h] at htext
  exact List.append_cancel_right htext

theorem not_inComment_of_stray {before : List Char} {c : Char} {cs : List Char}
    (h : (pieces (before ++ c :: cs)).2 = c :: cs) : ¬ InComment before := by
  have hne : (pieces (before ++ c :: cs)).2 ≠ [] := by simp [h]
  have hslash := slash_notMem_lastLine hne
  rw [textOf_of_stray h] at hslash
  intro hinside
  exact hslash (hinside.subset List.mem_cons_self)

/-- An open comment takes in the rest of its line, whatever that is.  No comment is open
after a gap that is closed, where a slash would be stray. -/
theorem wordsOf_append_line {lead text : List Char} {words : List (TokenKind × String)}
    (h : Written lead words text) (hinside : InComment text) {line : List Char}
    (hline : '\n' ∉ line) : wordsOf (text ++ line) = (words, []) := by
  obtain ⟨gap, hgap, -, hread⟩ := exists_lastGap h
  cases hgap with
  | closed htrivia =>
      have hslash := hread ['/'] fun _ d hd => by cases hd; decide
      rw [wordsOf_trivia htrivia, wordsOf_of_foreign (by decide) (by decide)] at hslash
      exact absurd hinside (not_inComment_of_stray (congrArg Prod.snd hslash))
  | @comment first second htrivia hsecond =>
      have hgap : FinalTrivia (first ++ '/' :: '/' :: second ++ line) := by
        rw [List.append_assoc]
        refine .comment htrivia ?_
        simp [hsecond, hline]
      rw [hread line fun hnil => by simp at hnil, wordsOf_finalTrivia hgap, List.append_nil]

/-! ## The character that is reported -/

/-- `StrayAt source before c after`: the text is `before`, the character and `after`, it
can be read up to the character, and the character starts no token there. -/
structure StrayAt (source before : String) (c : Char) (after : String) : Prop where
  split : source.toList = before.toList ++ c :: after.toList
  read : ∃ tokens, tokenize before = .ok tokens
  outside : ¬ InComment before.toList
  foreign : IsForeign c
  alone : ¬ (c = '/' ∧ after.toList.head? = some '/')

theorem StrayAt.pieces_rest {source before after : String} {c : Char}
    (h : StrayAt source before c after) : (pieces source.toList).2 = c :: after.toList := by
  obtain ⟨tokens, htokens⟩ := h.read
  obtain ⟨lead, words, hwritten, -⟩ := exists_written_of_tokenize htokens
  rw [h.split]
  exact congrArg Prod.snd (wordsOf_append_foreign hwritten h.outside h.foreign h.alone)

theorem StrayAt.tokenize {source before after : String} {c : Char}
    (h : StrayAt source before c after) :
    tokenize source = .error ⟨c, .past before.toList⟩ := by
  have htext : textOf (pieces source.toList).1 = before.toList := by
    have hrest := h.pieces_rest
    rw [h.split] at hrest ⊢
    exact textOf_of_stray hrest
  rw [tokenize_of_stray h.pieces_rest, htext]

theorem StrayAt.unique {source before before' after after' : String} {c c' : Char}
    (h : StrayAt source before c after) (h' : StrayAt source before' c' after') :
    before' = before ∧ c' = c ∧ after' = after := by
  have hrest : c' :: after'.toList = c :: after.toList := h'.pieces_rest.symm.trans h.pieces_rest
  have hsplit := h'.split.symm.trans h.split
  rw [hrest] at hsplit
  obtain ⟨hc, hafter⟩ := List.cons.inj hrest
  exact ⟨String.toList_injective (List.append_cancel_right hsplit), hc,
    String.toList_injective hafter⟩

theorem exists_strayAt {source : String} {e : LexError} (h : tokenize source = .error e) :
    ∃ before after, StrayAt source before e.character after := by
  cases hrest : (pieces source.toList).2 with
  | nil =>
      rw [tokenize_of_read hrest] at h
      cases h
  | cons c cs =>
      rw [tokenize_of_stray hrest] at h
      cases h
      obtain ⟨hforeign, halone⟩ := piece?_eq_none_iff.mp (piece?_of_pieces hrest)
      have hsplit := textOf_append_rest source.toList
      rw [hrest] at hsplit
      refine ⟨.ofList (textOf (pieces source.toList).1), .ofList cs, ?_, ?_, ?_, hforeign, ?_⟩
      · simp [hsplit]
      · refine ⟨_, tokenize_of_read ?_⟩
        rw [String.toList_ofList]
        exact pieces_textOf source.toList
      · rw [String.toList_ofList]
        rw [← hsplit] at hrest
        exact not_inComment_of_stray hrest
      · rw [String.toList_ofList]
        exact halone

/-- An error names the character of the one split of the text into a part that can be
read and does not end within a comment, a character that only comments hold and that
does not start one here, and a rest.  The position is that of the split.  So within a
comment any character may follow, and outside of one no character beyond ASCII and no
slash by itself. -/
theorem tokenize_error_iff_strayAt (source : String) :
    (∀ c, (∃ position, tokenize source = .error ⟨c, position⟩) ↔
      ∃ before after, StrayAt source before c after) ∧
    (∀ before c after, StrayAt source before c after →
      tokenize source = .error ⟨c, .past before.toList⟩ ∧
        ∀ before' c' after', StrayAt source before' c' after' →
          before' = before ∧ c' = c ∧ after' = after) ∧
    ∀ tokens, tokenize source = .ok tokens →
      (InComment source.toList → ∀ line : String, '\n' ∉ line.toList →
        ∃ tokens', tokenize (source ++ line) = .ok tokens' ∧
          tokens'.map Token.word = tokens.map Token.word) ∧
      (¬ InComment source.toList → ∀ (c : Char) (after : String), 128 ≤ c.toNat ∨ c = '/' →
        ¬ (c = '/' ∧ after.toList.head? = some '/') →
        tokenize (source ++ c.toString ++ after) = .error ⟨c, .past source.toList⟩) := by
  refine ⟨?_, ?_, ?_⟩
  · intro c
    constructor
    · rintro ⟨position, h⟩
      exact exists_strayAt h
    · rintro ⟨before, after, h⟩
      exact ⟨_, h.tokenize⟩
  · intro before c after h
    exact ⟨h.tokenize, fun before' c' after' h' => h.unique h'⟩
  · intro tokens htokens
    obtain ⟨lead, words, hwritten, hwords⟩ := exists_written_of_tokenize htokens
    constructor
    · intro hinside line hline
      have hread := wordsOf_append_line hwritten hinside hline
      rw [← String.toList_append] at hread
      rw [hwords]
      exact exists_tokenize_iff.mpr hread
    · intro houtside c after hc halone
      have hforeign : IsForeign c := by
        rcases hc with hc | rfl
        · exact isForeign_of_le hc
        · decide
      have hstray : StrayAt (source ++ c.toString ++ after) source c after :=
        ⟨by simp, ⟨tokens, htokens⟩, houtside, hforeign, halone⟩
      exact hstray.tokenize

/-- A comment with a slash, a letter and a digit beyond ASCII; after it the same slash is
an error. -/
theorem tokenize_loneSlash :
    StrayAt "x// é/٣\n2 / /" "x// é/٣\n2 " '/' " /" ∧
      tokenize "x// é/٣\n2 / /" = .error ⟨'/', ⟨2, 3⟩⟩ ∧
      (∀ before c after, StrayAt "x// é/٣\n2 / /" before c after →
        before = "x// é/٣\n2 " ∧ c = '/' ∧ after = " /") ∧
      (∃ tokens, tokenize ("x//" ++ " é/٣") = .ok tokens ∧
        tokens.map Token.word = [(.identifier, "x"), (.endOfInput, "")]) ∧
      tokenize ("x" ++ '٣'.toString ++ "/") = .error ⟨'٣', ⟨1, 2⟩⟩ := by
  have hbefore : tokenize "x// é/٣\n2 " = .ok [⟨.identifier, "x", ⟨1, 1⟩⟩,
      ⟨.number, "2", ⟨2, 1⟩⟩, ⟨.endOfInput, "", ⟨2, 3⟩⟩] := by
    decide +kernel
  have hopen : tokenize "x//" = .ok [⟨.identifier, "x", ⟨1, 1⟩⟩, ⟨.endOfInput, "", ⟨1, 4⟩⟩] := by
    decide +kernel
  have hname : tokenize "x" = .ok [⟨.identifier, "x", ⟨1, 1⟩⟩, ⟨.endOfInput, "", ⟨1, 2⟩⟩] := by
    decide +kernel
  have hstray : StrayAt "x// é/٣\n2 / /" "x// é/٣\n2 " '/' " /" :=
    ⟨by decide +kernel, ⟨_, hbefore⟩, by decide +kernel, by decide, by decide +kernel⟩
  obtain ⟨herror, hunique⟩ := (tokenize_error_iff_strayAt "x// é/٣\n2 / /").2.1 _ _ _ hstray
  obtain ⟨hinside, -⟩ := (tokenize_error_iff_strayAt "x//").2.2 _ hopen
  obtain ⟨-, houtside⟩ := (tokenize_error_iff_strayAt "x").2.2 _ hname
  exact ⟨hstray, herror, hunique, hinside (by decide +kernel) " é/٣" (by decide +kernel),
    houtside (by decide +kernel) '٣' "/" (Or.inl (by decide)) (by decide +kernel)⟩

end SumScript
