import SumScript.Execute
import SumScript.Proofs.Program.Joined
import SumScript.Proofs.Token.Positions

/-!
# Errors point at the text

An error in a text names a place and what stands there.  A character that starts no
token does stand at the place (`pointsAt_of_lexError`).  An error of the parser names
a token.  Since a text ends with an end marker, the tokens never run out
(`Program.exists_blame_of_marker`), and every token stands where it says, the marker
at the very end (`pointsAt_of_mem_tokenize`).  Tokens are read before any of them is
looked at, so a character that starts no token is reported in any case.
-/

namespace SumScript

/-! ## Places in a text -/

/-- Something found at a position stands in the text there.  Only at the end of the text
it may be empty. -/
def PointsAt (text found : List Char) (position : Position) : Prop :=
  ∃ before after, text = before ++ found ++ after ∧ position = .past before ∧
    (found = [] → before = text)

theorem Token.StandsAt.pointsAt {token : Token} {text : List Char} {i : Nat}
    (h : token.StandsAt text i) (hne : token.text.toList ≠ []) :
    PointsAt text token.text.toList token.position := by
  obtain ⟨after, hafter⟩ := h.spelled
  refine ⟨text.take i, after, ?_, h.position, fun hnil => absurd hnil hne⟩
  rw [List.append_assoc, hafter, List.take_append_drop]

theorem pointsAt_end (text : List Char) : PointsAt text [] (.past text) :=
  ⟨text, [], by simp, rfl, fun _ => rfl⟩

theorem pointsAt_of_lexError {source : String} {e : LexError} (h : tokenize source = .error e) :
    PointsAt source.toList [e.character] e.position := by
  have htext := textOf_append_rest source.toList
  cases hrest : (pieces source.toList).2 with
  | nil =>
      rw [tokenize_of_read hrest] at h
      cases h
  | cons c cs =>
      rw [tokenize_of_stray hrest] at h
      cases h
      rw [hrest] at htext
      exact ⟨_, cs, by rw [List.append_assoc]; exact htext.symm, rfl, nofun⟩

theorem pointsAt_of_mem_tokenize {source : String} {tokens : List Token} {token : Token}
    (h : tokenize source = .ok tokens) (hmem : token ∈ tokens) :
    PointsAt source.toList token.text.toList token.position := by
  cases hrest : (pieces source.toList).2 with
  | cons c cs =>
      rw [tokenize_of_stray hrest] at h
      cases h
  | nil =>
      rw [tokenize_of_read hrest] at h
      cases h
      rcases List.mem_append.mp hmem with hplaced | hend
      · obtain ⟨p, hp, rfl⟩ := List.mem_map.mp hplaced
        have hstands := standsAt_of_mem_placedFrom source.toList [] p hp
        have hpos := (bounds_of_mem_placedFrom source.toList [] p hp).2.1
        refine hstands.pointsAt fun hnil => ?_
        rw [← String.length_toList, hnil] at hpos
        exact absurd hpos (Nat.lt_irrefl 0)
      · cases List.mem_singleton.mp hend
        exact pointsAt_end source.toList

/-! ## Errors of the stages -/

/-- `e.Names found position`: the error is about a token with the text, at the position. -/
inductive ParseError.Names : ParseError → String → Position → Prop where
  | unexpected {found : String} {position : Position} :
      Names (.unexpected found position) found position
  | expected {kind : TokenKind} {found : String} {position : Position} :
      Names (.expected kind found position) found position

theorem Token.names_blame (token : Token) (cause : Option TokenKind) :
    (token.blame cause).Names token.text token.position := by
  cases cause with
  | none => exact .unexpected
  | some kind => exact .expected

theorem Program.ofSource_eq_lex_iff {ν : Type} [NumberSystem ν] {source : String} {e : LexError} :
    (Program.ofSource source : Except Error (Program ν)) = .error (.lex e) ↔
      tokenize source = .error e := by
  unfold Program.ofSource
  cases tokenize source with
  | error e' => simp
  | ok tokens =>
      cases hread : (Program.ofTokens tokens : Except ParseError (Program ν)) <;> simp [hread]

theorem Program.ofSource_eq_parse_iff {ν : Type} [NumberSystem ν] {source : String}
    {e : ParseError} :
    (Program.ofSource source : Except Error (Program ν)) = .error (.parse e) ↔
      ∃ tokens, tokenize source = .ok tokens ∧
        (Program.ofTokens tokens : Except ParseError (Program ν)) = .error e := by
  unfold Program.ofSource
  cases tokenize source with
  | error e' => simp
  | ok tokens =>
      cases hread : (Program.ofTokens tokens : Except ParseError (Program ν)) <;> simp [hread]

/-- The errors of an execution are those of reading the text and those of the run. -/
theorem execute_eq_error_iff {source : String} {e : Error} (h : ∀ r, e ≠ .runtime r) :
    (execute source).result = .error e ↔
      (Program.ofSource source : Except Error (Program Double)) = .error e := by
  simp only [execute, executeOver, Context.runSource]
  cases (Program.ofSource source : Except Error (Program Double)) with
  | error e' => simp
  | ok p =>
      cases hrun : ((Context.empty : Context Double).run p).2 with
      | error r => simpa [hrun, Except.mapError] using (h r).symm
      | ok => simp [hrun, Except.mapError]

theorem execute_eq_lex_iff {source : String} {e : LexError} :
    (execute source).result = .error (.lex e) ↔ tokenize source = .error e :=
  (execute_eq_error_iff (by simp)).trans Program.ofSource_eq_lex_iff

theorem execute_eq_parse_iff {source : String} {e : ParseError} :
    (execute source).result = .error (.parse e) ↔
      ∃ tokens, tokenize source = .ok tokens ∧
        (Program.ofTokens tokens : Except ParseError (Program Double)) = .error e :=
  (execute_eq_error_iff (by simp)).trans Program.ofSource_eq_parse_iff

/-- A text that can be read has an end marker among its tokens. -/
theorem exists_marker_of_tokenize {source : String} {tokens : List Token}
    (h : tokenize source = .ok tokens) : ∃ marker ∈ tokens, marker.kind = .endOfInput := by
  obtain ⟨-, hwords⟩ := map_word_of_tokenize h
  have hmem : (TokenKind.endOfInput, "") ∈ tokens.map Token.word := by
    rw [hwords]
    simp
  obtain ⟨marker, hmarker, hword⟩ := List.mem_map.mp hmem
  exact ⟨marker, hmarker, congrArg Prod.fst hword⟩

theorem tokenize_error_iff {source : String} :
    (∃ e, tokenize source = .error e) ↔ ¬ ∃ lead words, Written lead words source.toList := by
  constructor
  · rintro ⟨e, he⟩ ⟨lead, words, hwritten⟩
    obtain ⟨tokens, htokens, -⟩ := exists_tokenize_iff.mpr hwritten.wordsOf
    rw [he] at htokens
    cases htokens
  · intro hnot
    cases htokens : tokenize source with
    | error e => exact ⟨e, rfl⟩
    | ok tokens =>
        obtain ⟨lead, words, hwritten, -⟩ := exists_written_of_tokenize htokens
        exact absurd ⟨lead, words, hwritten⟩ hnot

/-! ## Errors of an execution -/

/-- Errors in a text point at it.  The character, or the text of the token, that an
error names stands in the text at the position that it names, and the tokens do not
run out.  A text with a character that starts no token is reported for that one,
whatever its tokens are. -/
theorem execute_error_located (source : String) :
    (∀ e, (execute source).result = .error (.lex e) →
      PointsAt source.toList [e.character] e.position) ∧
    (∀ e, (execute source).result = .error (.parse e) →
      e ≠ .endOfTokens ∧
        ∃ found position, e.Names found position ∧ PointsAt source.toList found.toList position) ∧
    (∀ e, tokenize source = .error e → (execute source).result = .error (.lex e)) ∧
    ((∃ e, (execute source).result = .error (.lex e)) ↔
      ¬ ∃ lead words, Written lead words source.toList) := by
  refine ⟨?_, ?_, ?_, ?_⟩
  · intro e h
    exact pointsAt_of_lexError (execute_eq_lex_iff.mp h)
  · intro e h
    obtain ⟨tokens, htokens, hread⟩ := execute_eq_parse_iff.mp h
    obtain ⟨marker, hmarker, hkind⟩ := exists_marker_of_tokenize htokens
    obtain ⟨token, htoken, cause, rfl⟩ := Program.exists_blame_of_marker hmarker hkind hread
    have hnames := token.names_blame cause
    refine ⟨?_, _, _, hnames, pointsAt_of_mem_tokenize htokens htoken⟩
    intro hend
    rw [hend] at hnames
    cases hnames
  · intro e h
    exact execute_eq_lex_iff.mpr h
  · simp only [execute_eq_lex_iff, tokenize_error_iff]

/-- A grammar error at the end of the text, after a comment, and the same one before a
character that starts no token. -/
theorem execute_unfinishedText :
    (execute "x =\n// é").result = .error (.parse (.unexpected "" ⟨2, 5⟩)) ∧
      PointsAt "x =\n// é".toList [] ⟨2, 5⟩ ∧
      (execute "= é").result = .error (.lex ⟨'é', ⟨1, 3⟩⟩) ∧
      PointsAt "= é".toList ['é'] ⟨1, 3⟩ := by
  have hparse : (execute "x =\n// é").result = .error (.parse (.unexpected "" ⟨2, 5⟩)) := by
    decide +kernel
  have hlex : tokenize "= é" = .error ⟨'é', ⟨1, 3⟩⟩ := by decide +kernel
  have hreported := (execute_error_located "= é").2.2.1 _ hlex
  obtain ⟨-, found, position, hnames, hpoints⟩ := (execute_error_located _).2.1 _ hparse
  cases hnames
  exact ⟨hparse, hpoints, hreported, (execute_error_located _).1 _ hreported⟩

end SumScript
