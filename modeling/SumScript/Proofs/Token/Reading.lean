import SumScript.Proofs.Token.Layout

/-!
# Reading a text back into its words

`wordsOf` is what the pieces of a text say: the words, and the text that is left
over.  It undoes every layout of the words (`Written.wordsOf`), and a text that
leaves nothing over has a layout (`exists_written`).  Between them stand the
laws of reading one stretch of text: trivia adds no word (`wordsOf_trivia`), and
a word that the next character does not extend is read as it is
(`wordsOf_word`).

`tokenize` gives a token to each word (`map_word_tokenize`), so that the
texts it accepts are the written ones.
-/

namespace SumScript

/-! ## Words of pieces -/

/-- The word of a piece, if it is a token. -/
def Piece.words (piece : Piece) : List (TokenKind × String) :=
  match piece.kind with
  | .token kind => [(kind, .ofList piece.text)]
  | .filler => []
  | .lineEnd => []

/-- The words of a text, and the text that is left over. -/
def wordsOf (text : List Char) : List (TokenKind × String) × List Char :=
  ((pieces text).1.flatMap Piece.words, (pieces text).2)

theorem wordsOf_nil : wordsOf [] = ([], []) := by
  simp [wordsOf, pieces_nil]

theorem wordsOf_cut {c : Char} {cs : List Char} {piece : Piece} (h : Cut c cs piece) :
    wordsOf (c :: cs) = (piece.words ++ (wordsOf piece.rest).1, (wordsOf piece.rest).2) := by
  simp [wordsOf, pieces_cut h]

theorem wordsOf_skip {c : Char} {cs : List Char} {piece : Piece} (h : Cut c cs piece)
    (hwords : piece.words = []) : wordsOf (c :: cs) = wordsOf piece.rest := by
  rw [wordsOf_cut h, hwords, List.nil_append]

/-- A run ends where its class of characters does. -/
theorem Piece.run_append {kind : List Char → PieceKind} {p : Char → Bool} {c : Char}
    {cs rest : List Char} (hcs : ∀ d ∈ cs, p d) (hrest : ∀ d ∈ rest.head?, ¬ p d) :
    Piece.run kind p c (cs ++ rest) = ⟨kind (c :: cs), c :: cs, rest⟩ := by
  have htake : rest.takeWhile p = [] := by
    cases rest with
    | nil => rfl
    | cons d rest => exact List.takeWhile_cons_of_neg (hrest d rfl)
  have hdrop : rest.dropWhile p = rest := by
    cases rest with
    | nil => rfl
    | cons d rest => exact List.dropWhile_cons_of_neg (hrest d rfl)
  simp only [Piece.run, List.takeWhile_append_of_pos hcs, List.dropWhile_append_of_pos hcs,
    htake, hdrop, List.append_nil]

theorem not_head?_dropWhile (p : Char → Bool) (cs : List Char) :
    ∀ d ∈ (cs.dropWhile p).head?, ¬ p d := by
  intro d hd
  have h := List.head?_dropWhile_not p cs
  rw [Option.mem_def.mp hd] at h
  simpa using h

/-! ## Reading trivia -/

/-- A blank is not read.  With and without it, reading goes on after the last of the
blanks. -/
theorem wordsOf_blank {c : Char} (h : isBlank c) (cs : List Char) :
    wordsOf (c :: cs) = wordsOf cs := by
  have hrest : wordsOf cs = wordsOf (cs.dropWhile isBlank) := by
    cases cs with
    | nil => rfl
    | cons d cs =>
        by_cases hd : isBlank d
        · rw [List.dropWhile_cons_of_pos hd]
          exact wordsOf_skip (.blanks hd) rfl
        · rw [List.dropWhile_cons_of_neg hd]
  rw [hrest]
  exact wordsOf_skip (.blanks h) rfl

theorem wordsOf_lineEnd (cs : List Char) : wordsOf ('\n' :: cs) = wordsOf cs :=
  wordsOf_skip .lineEnd rfl

theorem wordsOf_comment {line rest : List Char} (hline : '\n' ∉ line)
    (hrest : ∀ c ∈ rest.head?, c = '\n') : wordsOf ('/' :: '/' :: (line ++ rest)) = wordsOf rest := by
  have hcs : ∀ d ∈ '/' :: line, (d != '\n') = true := by
    intro d hd
    rcases List.mem_cons.mp hd with rfl | hd
    · decide
    · exact bne_iff_ne.mpr (ne_of_mem_of_not_mem hd hline)
  have hend : ∀ d ∈ rest.head?, ¬ (d != '\n') = true := by
    intro d hd
    simp [hrest d hd]
  rw [wordsOf_skip .comment rfl, ← List.cons_append, Piece.run_append hcs hend]

theorem wordsOf_trivia {gap : List Char} (h : Trivia gap) (text : List Char) :
    wordsOf (gap ++ text) = wordsOf text := by
  induction h with
  | nil => rfl
  | blank hblank _ ih => exact (wordsOf_blank (isBlank_iff.mpr hblank) _).trans ih
  | lineEnd _ ih => exact (wordsOf_lineEnd _).trans ih
  | @comment line gap hline _ ih =>
      have heq : '/' :: '/' :: (line ++ '\n' :: gap) ++ text
          = '/' :: '/' :: (line ++ '\n' :: (gap ++ text)) := by simp
      rw [heq, wordsOf_comment hline (by simp), wordsOf_lineEnd, ih]

theorem wordsOf_finalTrivia {gap : List Char} (h : FinalTrivia gap) : wordsOf gap = ([], []) := by
  cases h with
  | closed hgap => rw [← List.append_nil gap, wordsOf_trivia hgap, wordsOf_nil]
  | @comment _ line hgap hline =>
      rw [wordsOf_trivia hgap, ← List.append_nil line, wordsOf_comment hline (by simp), wordsOf_nil]

/-! ## Reading words -/

theorem IsNumeral.exists_cut {word rest : List Char} (h : IsNumeral word)
    (hrest : ∀ c ∈ rest.head?, ¬ c.isDigit) :
    ∃ c cs, word ++ rest = c :: cs ∧ Cut c cs ⟨.token .number, word, rest⟩ := by
  obtain ⟨hne, hdigits⟩ := h
  obtain ⟨c, cs, rfl⟩ := List.exists_cons_of_ne_nil hne
  have hcs : ∀ d ∈ cs, d.isDigit := fun d hd => hdigits d (List.mem_cons_of_mem _ hd)
  have hcut : Cut c (cs ++ rest) _ := .digits (hdigits c List.mem_cons_self)
  rw [Piece.run_append hcs hrest] at hcut
  exact ⟨c, cs ++ rest, rfl, hcut⟩

theorem IsName.exists_cut {word rest : List Char} (h : IsName word)
    (hrest : ∀ c ∈ rest.head?, ¬ isWordPart c) :
    ∃ c cs, word ++ rest = c :: cs ∧ Cut c cs ⟨.token (wordKind word), word, rest⟩ := by
  obtain ⟨c, cs, rfl, hstart, hcs⟩ := isName_iff.mp h
  have hcut : Cut c (cs ++ rest) _ := .word hstart
  rw [Piece.run_append hcs hrest] at hcut
  exact ⟨c, cs ++ rest, rfl, hcut⟩

/-- A word stands at the front of a text as a piece, if the text goes on with a
character that does not extend it. -/
theorem Spells.exists_cut {kind : TokenKind} {word rest : List Char} (h : Spells kind word)
    (hrest : ∀ c ∈ rest.head?, ¬ kind.extendsBy c) :
    ∃ c cs, word ++ rest = c :: cs ∧ Cut c cs ⟨.token kind, word, rest⟩ := by
  cases h with
  | number hword => exact hword.exists_cut hrest
  | identifier hword hnew hprint =>
      have hkind : wordKind word = .identifier := by simp [wordKind, hnew, hprint]
      rw [← hkind]
      exact hword.exists_cut hrest
  | new | print =>
      refine IsName.exists_cut ?_ hrest
      exact isName_iff.mpr ⟨_, _, rfl, rfl, List.all_eq_true.mp rfl⟩
  | equals | plus | minus | semicolon | leftParen | rightParen => exact ⟨_, _, rfl, .sign rfl⟩

theorem wordsOf_word {kind : TokenKind} {word : String} {rest : List Char}
    (h : Spells kind word.toList) (hrest : ∀ c ∈ rest.head?, ¬ kind.extendsBy c) :
    wordsOf (word.toList ++ rest) = ((kind, word) :: (wordsOf rest).1, (wordsOf rest).2) := by
  obtain ⟨c, cs, heq, hcut⟩ := h.exists_cut hrest
  rw [heq, wordsOf_cut hcut]
  simp [Piece.words]

/-- The pieces of a written text are its words again. -/
theorem Written.wordsOf {lead text : List Char} {words : List (TokenKind × String)}
    (h : Written lead words text) : wordsOf text = (words, []) := by
  induction h with
  | nil hgap => exact wordsOf_finalTrivia hgap
  | @cons _ _ _ kind _ _ hgap hspells hrest hjoins ih =>
      have hend := (hrest.not_extendsBy_iff kind).mpr hjoins
      rw [wordsOf_trivia hgap, wordsOf_word hspells hend, ih]

/-! ## Writing what was read -/

theorem isNumeral_run {c : Char} (h : c.isDigit) (cs : List Char) :
    IsNumeral (c :: cs.takeWhile Char.isDigit) := by
  refine ⟨List.cons_ne_nil _ _, ?_⟩
  intro d hd
  rcases List.mem_cons.mp hd with rfl | hd
  · exact h
  · exact List.mem_takeWhile_imp hd

theorem isName_run {c : Char} (h : isWordStart c) (cs : List Char) :
    IsName (c :: cs.takeWhile isWordPart) := by
  refine isName_iff.mpr ⟨c, _, rfl, h, ?_⟩
  intro d hd
  exact List.mem_takeWhile_imp hd

theorem IsName.spells {word : List Char} (h : IsName word) : Spells (wordKind word) word := by
  unfold wordKind
  split
  next hnew => subst hnew; exact .new
  next hnew =>
    split
    next hprint => subst hprint; exact .print
    next hprint => exact .identifier h hnew hprint

theorem not_extendsBy_wordKind {word : List Char} {c : Char} (h : ¬ isWordPart c) :
    ¬ (wordKind word).extendsBy c :=
  fun hextends => h (TokenKind.isWordPart_of_extendsBy hextends)

/-- A token at the front of a text is spelled as its kind asks, and it reaches as
far as it can. -/
theorem Cut.spells {c : Char} {cs : List Char} {piece : Piece} {kind : TokenKind}
    (h : Cut c cs piece) (hkind : piece.kind = .token kind) :
    Spells kind piece.text ∧ ∀ d ∈ piece.rest.head?, ¬ kind.extendsBy d := by
  cases h with
  | digits hc =>
      cases hkind
      exact ⟨.number (isNumeral_run hc cs), not_head?_dropWhile _ cs⟩
  | word hc =>
      cases hkind
      refine ⟨(isName_run hc cs).spells, ?_⟩
      intro d hd
      exact not_extendsBy_wordKind (not_head?_dropWhile _ cs d hd)
  | blanks => cases hkind
  | lineEnd => cases hkind
  | comment => cases hkind
  | sign hsign =>
      cases hkind
      rcases signKind?_eq_some_iff.mp hsign with
        ⟨rfl, rfl⟩ | ⟨rfl, rfl⟩ | ⟨rfl, rfl⟩ | ⟨rfl, rfl⟩ | ⟨rfl, rfl⟩ | ⟨rfl, rfl⟩
      · exact ⟨.equals, by simp [TokenKind.extendsBy]⟩
      · exact ⟨.plus, by simp [TokenKind.extendsBy]⟩
      · exact ⟨.minus, by simp [TokenKind.extendsBy]⟩
      · exact ⟨.semicolon, by simp [TokenKind.extendsBy]⟩
      · exact ⟨.leftParen, by simp [TokenKind.extendsBy]⟩
      · exact ⟨.rightParen, by simp [TokenKind.extendsBy]⟩

theorem Written.of_cut {c : Char} {cs lead : List Char} {piece : Piece} {kind : TokenKind}
    {words : List (TokenKind × String)} (hrest : Written lead words piece.rest)
    (h : Cut c cs piece) (hkind : piece.kind = .token kind) :
    Written [] ((kind, .ofList piece.text) :: words) (c :: cs) := by
  obtain ⟨hspells, hend⟩ := h.spells hkind
  rw [← String.toList_ofList (l := piece.text)] at hspells
  have hwritten := Written.cons .nil hspells hrest ((hrest.not_extendsBy_iff kind).mp hend)
  rwa [List.nil_append, String.toList_ofList, h.text_append_rest] at hwritten

/-- A comment is trivia up to the end of its line, or final trivia if its line has
no end. -/
theorem finalTrivia_or_trivia_comment (cs : List Char) :
    FinalTrivia ('/' :: '/' :: cs) ∨
      ∃ line rest, cs = line ++ '\n' :: rest ∧ Trivia ('/' :: '/' :: (line ++ ['\n'])) := by
  have hline : '\n' ∉ cs.takeWhile (· != '\n') := by
    intro hmem
    simpa using List.mem_takeWhile_imp hmem
  have hsplit : cs.takeWhile (· != '\n') ++ cs.dropWhile (· != '\n') = cs :=
    List.takeWhile_append_dropWhile
  cases hdrop : cs.dropWhile (· != '\n') with
  | nil =>
      rw [hdrop, List.append_nil] at hsplit
      rw [hsplit] at hline
      exact Or.inl (.comment .nil hline)
  | cons d rest =>
      have hd : d = '\n' := by
        simpa using not_head?_dropWhile (· != '\n') cs d (by rw [hdrop]; rfl)
      rw [hdrop, hd] at hsplit
      exact Or.inr ⟨_, rest, hsplit.symm, .comment hline .nil⟩

/-- A text that is read to its end can be written from its words.  The induction is on the
length of the text: a step takes off a word, a blank, a line end or a whole comment line,
and what is left need not be the rest of one piece. -/
theorem exists_written (text : List Char) (h : (wordsOf text).2 = []) :
    ∃ lead, Written lead (wordsOf text).1 text := by
  induction hlength : text.length using Nat.strong_induction_on generalizing text with
  | _ n ih =>
      subst hlength
      cases text with
      | nil =>
          rw [wordsOf_nil]
          exact ⟨[], .nil (.closed .nil)⟩
      | cons c cs =>
          cases hpiece : piece? c cs with
          | none => simp [wordsOf, pieces_stray hpiece] at h
          | some piece =>
              have hcut := Cut.of_piece? hpiece
              have token : ∀ kind, piece.kind = .token kind →
                  ∃ lead, Written lead (wordsOf (c :: cs)).1 (c :: cs) := by
                intro kind hkind
                rw [wordsOf_cut hcut] at h ⊢
                obtain ⟨lead, hwritten⟩ := ih _ (length_rest_lt hpiece) piece.rest h rfl
                simp only [Piece.words, hkind]
                exact ⟨[], hwritten.of_cut hcut hkind⟩
              cases hcut with
              | digits => exact token _ rfl
              | word => exact token _ rfl
              | sign => exact token _ rfl
              | blanks hc =>
                  rw [wordsOf_blank hc] at h ⊢
                  obtain ⟨lead, hwritten⟩ := ih cs.length (by simp) cs h rfl
                  exact ⟨_, hwritten.prepend (.blank (isBlank_iff.mp hc) .nil)⟩
              | lineEnd =>
                  rw [wordsOf_lineEnd] at h ⊢
                  obtain ⟨lead, hwritten⟩ := ih cs.length (by simp) cs h rfl
                  exact ⟨_, hwritten.prepend (.lineEnd .nil)⟩
              | @comment cs =>
                  rcases finalTrivia_or_trivia_comment cs with hfinal | ⟨line, rest, rfl, htrivia⟩
                  · rw [wordsOf_finalTrivia hfinal]
                    exact ⟨_, .nil hfinal⟩
                  · have heq : '/' :: '/' :: (line ++ '\n' :: rest)
                        = '/' :: '/' :: (line ++ ['\n']) ++ rest := by simp
                    rw [heq, wordsOf_trivia htrivia] at h ⊢
                    obtain ⟨lead, hwritten⟩ := ih rest.length (by simp; omega) rest h rfl
                    exact ⟨_, hwritten.prepend htrivia⟩

/-- Reading inverts writing. -/
theorem wordsOf_eq_iff {text : List Char} {words : List (TokenKind × String)} :
    wordsOf text = (words, []) ↔ ∃ lead, Written lead words text := by
  constructor
  · intro h
    have hwritten := exists_written text (by rw [h])
    rwa [h] at hwritten
  · rintro ⟨lead, hwritten⟩
    exact hwritten.wordsOf

/-! ## Tokens -/

/-- A token without its place. -/
def Token.word (token : Token) : TokenKind × String := (token.kind, token.text)

/-- A lexeme without its mark. -/
def Lexeme.word (lexeme : Lexeme) : TokenKind × String := (lexeme.kind, .ofList lexeme.text)

theorem Piece.map_word_lexemes (piece : Piece) (mark : Mark) :
    (piece.lexemes mark).map Lexeme.word = piece.words := by
  cases hkind : piece.kind with
  | token kind => simp [Piece.lexemes, Piece.words, Lexeme.word, hkind]
  | filler => simp [Piece.lexemes, Piece.words, hkind]
  | lineEnd => simp [Piece.lexemes, Piece.words, hkind]

theorem map_word_lexemesFrom (mark : Mark) (pieces : List Piece) :
    (lexemesFrom mark pieces).map Lexeme.word = pieces.flatMap Piece.words := by
  induction pieces generalizing mark with
  | nil => rfl
  | cons piece pieces ih =>
      rw [lexemesFrom, List.map_append, Piece.map_word_lexemes, ih, List.flatMap_cons]

theorem map_word_locate (found : List Token) (cursor : ColumnCursor) (lexemes : List Lexeme) :
    (locate found cursor lexemes).1.map Token.word =
      found.reverse.map Token.word ++ lexemes.map Lexeme.word := by
  induction lexemes generalizing found cursor with
  | nil => simp [locate]
  | cons lexeme lexemes ih =>
      rw [locate, ih]
      simp [Token.word, Lexeme.word]

theorem map_word_locate_scan (text : List Char) :
    (locate [] (.ofText text) (scan text).lexemes).1.map Token.word = (wordsOf text).1 := by
  rw [map_word_locate, scan, scanFrom_eq]
  simp [map_word_lexemesFrom, wordsOf]

theorem scan_stray (text : List Char) : (scan text).stray = (wordsOf text).2.head? := by
  rw [scan, scanFrom_eq, wordsOf]

/-- A text that leaves nothing over gives its words as tokens. -/
theorem map_word_tokenize {source : String} (h : (wordsOf source.toList).2 = []) :
    ∃ tokens, tokenize source = .ok tokens ∧
      tokens.map Token.word = (wordsOf source.toList).1 ++ [(.endOfInput, "")] := by
  have hstray : (scan source.toList).stray = none := by rw [scan_stray, h]; rfl
  simp only [tokenize, hstray]
  refine ⟨_, rfl, ?_⟩
  rw [List.map_append, map_word_locate_scan]
  rfl

theorem tokenize_ne_ok {source : String} (h : (wordsOf source.toList).2 ≠ [])
    (tokens : List Token) : tokenize source ≠ .ok tokens := by
  obtain ⟨c, rest, heq⟩ := List.exists_cons_of_ne_nil h
  have hstray : (scan source.toList).stray = some c := by rw [scan_stray, heq]; rfl
  simp [tokenize, hstray]

/-- A text that is read leaves nothing over, and its tokens have its words. -/
theorem map_word_of_tokenize {source : String} {tokens : List Token}
    (h : tokenize source = .ok tokens) :
    (wordsOf source.toList).2 = [] ∧
      tokens.map Token.word = (wordsOf source.toList).1 ++ [(.endOfInput, "")] := by
  have hrest : (wordsOf source.toList).2 = [] := by
    by_contra hne
    exact tokenize_ne_ok hne tokens h
  obtain ⟨tokens', htokens', hwords'⟩ := map_word_tokenize hrest
  rw [h] at htokens'
  cases htokens'
  exact ⟨hrest, hwords'⟩

theorem exists_written_of_tokenize {source : String} {tokens : List Token}
    (h : tokenize source = .ok tokens) :
    ∃ lead words, Written lead words source.toList ∧
      tokens.map Token.word = words ++ [(.endOfInput, "")] := by
  obtain ⟨hrest, hwords⟩ := map_word_of_tokenize h
  obtain ⟨lead, hwritten⟩ := exists_written source.toList hrest
  exact ⟨lead, _, hwritten, hwords⟩

theorem exists_tokenize_iff {source : String} {words : List (TokenKind × String)} :
    (∃ tokens, tokenize source = .ok tokens ∧
        tokens.map Token.word = words ++ [(.endOfInput, "")]) ↔
      wordsOf source.toList = (words, []) := by
  constructor
  · rintro ⟨tokens, htokens, hwords⟩
    obtain ⟨hrest, hwords'⟩ := map_word_of_tokenize htokens
    rw [hwords] at hwords'
    exact Prod.ext (List.append_cancel_right hwords').symm hrest
  · intro h
    obtain ⟨tokens, htokens, hwords⟩ := map_word_tokenize (congrArg Prod.snd h)
    rw [h] at hwords
    exact ⟨tokens, htokens, hwords⟩

/-- All tokens but the last are spelled as their kinds ask. -/
theorem spells_of_tokenize {source : String} {tokens : List Token}
    (h : tokenize source = .ok tokens) {token : Token} (htoken : token ∈ tokens)
    (hkind : token.kind ≠ .endOfInput) : Spells token.kind token.text.toList := by
  obtain ⟨lead, words, hwritten, hwords⟩ := exists_written_of_tokenize h
  have hmem : token.word ∈ words ++ [(.endOfInput, "")] :=
    hwords ▸ List.mem_map_of_mem htoken
  rcases List.mem_append.mp hmem with hword | hend
  · exact hwritten.spells token.word hword
  · exact absurd (congrArg Prod.fst (List.mem_singleton.mp hend)) hkind

/-- The texts that can be read are the written ones: a text gives its tokens for a
list of words exactly if it is those words laid out with trivia around them.
No text is a layout of two lists of words. -/
theorem tokenize_iff_written (source : String) (words : List (TokenKind × String)) :
    ((∃ tokens, tokenize source = .ok tokens ∧
        tokens.map Token.word = words ++ [(.endOfInput, "")]) ↔
      ∃ lead, Written lead words source.toList) ∧
    ∀ lead lead' words', Written lead words source.toList →
      Written lead' words' source.toList → words' = words := by
  refine ⟨exists_tokenize_iff.trans wordsOf_eq_iff, ?_⟩
  intro lead lead' words' h h'
  have heq : (words', ([] : List Char)) = (words, []) := h'.wordsOf.symm.trans h.wordsOf
  exact congrArg Prod.fst heq

/-- A digit may stand in a name and a name may follow a number; a comment at the
end needs no line end. -/
theorem written_digits_and_names :
    (∃ lead, Written lead [(.identifier, "x1"), (.number, "2"), (.identifier, "new_")]
      "x1 2new_// é".toList) ∧
    ∀ lead words, Written lead words "x1 2new_// é".toList →
      words = [(.identifier, "x1"), (.number, "2"), (.identifier, "new_")] := by
  have htokens : tokenize "x1 2new_// é" = .ok [⟨.identifier, "x1", ⟨1, 1⟩⟩,
      ⟨.number, "2", ⟨1, 4⟩⟩, ⟨.identifier, "new_", ⟨1, 5⟩⟩, ⟨.endOfInput, "", ⟨1, 13⟩⟩] := by
    decide +kernel
  obtain ⟨lead, hlead⟩ := (tokenize_iff_written _
    [(.identifier, "x1"), (.number, "2"), (.identifier, "new_")]).1.mp ⟨_, htokens, rfl⟩
  refine ⟨⟨lead, hlead⟩, ?_⟩
  intro lead' words hwords
  exact (tokenize_iff_written _ _).2 lead lead' words hlead hwords

end SumScript
