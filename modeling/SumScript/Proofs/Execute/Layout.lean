import SumScript.Execute
import SumScript.Proofs.Program.Agreement
import SumScript.Proofs.Token.Reading

/-!
# Layout does not matter

Two texts with the same words, laid out in different ways, do the same.  The
tokens of both have the same kinds and texts and differ in their positions only
(`Written.exists_tokens`), the parser does not look at positions, and a program
holds none.  So the two texts run the same program, or both cannot be read, and
then the errors differ in the place at most.
-/

namespace SumScript

/-! ## Words and kinds -/

/-- The kind of a word is determined by its text. -/
theorem Spells.kind_eq {kind kind' : TokenKind} {word : List Char} (h : Spells kind word)
    (h' : Spells kind' word) : kind = kind' := by
  have hend : ∀ kind : TokenKind, ∀ c ∈ ([] : List Char).head?, ¬ kind.extendsBy c := by simp
  obtain ⟨c, cs, heq, hcut⟩ := h.exists_cut (hend kind)
  obtain ⟨c', cs', heq', hcut'⟩ := h'.exists_cut (hend kind')
  rw [heq] at heq'
  cases heq'
  have hpiece := hcut.piece?.symm.trans hcut'.piece?
  simpa using hpiece

theorem eq_of_spells {words words' : List (TokenKind × String)}
    (h : ∀ word ∈ words, Spells word.1 word.2.toList)
    (h' : ∀ word ∈ words', Spells word.1 word.2.toList)
    (htexts : words.map Prod.snd = words'.map Prod.snd) : words = words' := by
  induction words generalizing words' with
  | nil => exact (List.map_eq_nil_iff.mp htexts.symm).symm
  | cons word words ih =>
      obtain ⟨word', words', rfl, htext, htail⟩ := List.map_eq_cons_iff.mp htexts.symm
      rw [List.forall_mem_cons] at h h'
      rw [htext] at h'
      have hkind := h.1.kind_eq h'.1
      rw [ih h.2 h'.2 htail.symm, Prod.ext hkind htext.symm]

/-! ## Tokens and errors -/

theorem Agree.of_words {tokens tokens' : List Token}
    (h : tokens.map Token.word = tokens'.map Token.word) : Agree tokens tokens' := by
  have hwords : List.Forall₂ (fun token token' => token.word = token'.word) tokens tokens' := by
    rw [← List.forall₂_map_left_iff (f := Token.word) (R := fun w token' => w = Token.word token'),
      ← List.forall₂_map_right_iff (f := Token.word) (R := (· = ·)), List.forall₂_eq_eq_eq]
    exact h
  refine hwords.imp fun token token' heq => ?_
  exact ⟨congrArg Prod.fst heq.symm, fun _ => congrArg Prod.snd heq.symm⟩

/-- The same error, maybe at another place. -/
inductive ParseError.Alike : ParseError → ParseError → Prop where
  | unexpected {found : String} {place place' : Position} :
      Alike (.unexpected found place) (.unexpected found place')
  | expected {kind : TokenKind} {found : String} {place place' : Position} :
      Alike (.expected kind found place) (.expected kind found place')
  | endOfTokens : Alike .endOfTokens .endOfTokens

theorem Token.blame_alike {token token' : Token} (h : token.text = token'.text)
    (cause : Option TokenKind) : (token.blame cause).Alike (token'.blame cause) := by
  cases cause with
  | none =>
      rw [Token.blame, Token.blame, h]
      exact .unexpected
  | some kind =>
      rw [Token.blame, Token.blame, h]
      exact .expected

section

variable {ν : Type} [NumberSystem ν]

/-- Tokens that differ in their positions only are read as the same program, or not
at all. -/
theorem Program.ofTokens_of_words {tokens tokens' : List Token}
    (h : tokens.map Token.word = tokens'.map Token.word) :
    (∃ p : Program ν, Program.ofTokens tokens = .ok p ∧ Program.ofTokens tokens' = .ok p) ∨
      ∃ e e', (Program.ofTokens tokens : Except ParseError (Program ν)) = .error e ∧
        (Program.ofTokens tokens' : Except ParseError (Program ν)) = .error e' ∧ e.Alike e' := by
  have hagree := Agree.of_words h
  cases hread : (Program.ofTokens tokens : Except ParseError (Program ν)) with
  | ok p =>
      obtain ⟨q, hread', hrelated⟩ := Program.ofTokens_of_agree (μ := ν) hread hagree
      rw [← hrelated.eq SameLiteral.eq] at hread'
      exact Or.inl ⟨p, rfl, hread'⟩
  | error e =>
      refine Or.inr ?_
      rcases Program.ofTokens_error_of_agree hread hagree with
        ⟨rfl, hread'⟩ | ⟨k, token, token', cause, hget, hget', rfl, hread'⟩
      · exact ⟨_, _, rfl, hread', .endOfTokens⟩
      · have hword : (tokens.map Token.word)[k]? = (tokens'.map Token.word)[k]? := by rw [h]
        rw [List.getElem?_map, List.getElem?_map, hget, hget'] at hword
        have htext := congrArg Prod.snd (Option.some.inj hword)
        exact ⟨_, _, rfl, hread', Token.blame_alike htext cause⟩

end

/-! ## Texts -/

theorem Written.exists_tokens {lead : List Char} {words : List (TokenKind × String)}
    {source : String} (h : Written lead words source.toList) :
    ∃ tokens, tokenize source = .ok tokens ∧
      tokens.map Token.word = words ++ [(.endOfInput, "")] :=
  exists_tokenize_iff.mpr h.wordsOf

/-- Two executions end alike: both succeed, both break off with the same error, or
neither text forms a program and the errors differ in the place at most. -/
inductive EndsAlike : Except Error Unit → Except Error Unit → Prop where
  | ok : EndsAlike (.ok ()) (.ok ())
  | runtime {e : RuntimeError} : EndsAlike (.error (.runtime e)) (.error (.runtime e))
  | parse {e e' : ParseError} : e.Alike e' → EndsAlike (.error (.parse e)) (.error (.parse e'))

theorem EndsAlike.of_run (result : Except RuntimeError Unit) :
    EndsAlike (result.mapError .runtime) (result.mapError .runtime) := by
  cases result with
  | ok => exact .ok
  | error e => exact .runtime

/-- Texts with the same words print the same lines and end alike, however the words
are laid out. -/
theorem execute_of_layouts {lead lead' : List Char} {words words' : List (TokenKind × String)}
    {source source' : String} (h : Written lead words source.toList)
    (h' : Written lead' words' source'.toList) (htexts : words.map Prod.snd = words'.map Prod.snd) :
    (execute source).lines = (execute source').lines ∧
      EndsAlike (execute source).result (execute source').result := by
  obtain rfl := eq_of_spells h.spells h'.spells htexts
  obtain ⟨tokens, htokens, hwords⟩ := h.exists_tokens
  obtain ⟨tokens', htokens', hwords'⟩ := h'.exists_tokens
  simp only [execute, executeOver, Context.runSource, Program.ofSource, htokens, htokens']
  rcases Program.ofTokens_of_words (ν := Double) (hwords.trans hwords'.symm) with
    ⟨p, hread, hread'⟩ | ⟨e, e', hread, hread', halike⟩
  · rw [hread, hread']
    exact ⟨rfl, .of_run _⟩
  · rw [hread, hread']
    exact ⟨rfl, .parse halike⟩

/-- The words of a declaration without its sign. -/
def unsignedWords : List (TokenKind × String) := [(.new, "new"), (.identifier, "x"), (.number, "1")]

theorem execute_unsignedWords :
    (∃ lead, Written lead unsignedWords "new x 1".toList) ∧
      (∃ lead, Written lead unsignedWords "new\nx // =\n1// é".toList) ∧
      (execute "new x 1").lines = (execute "new\nx // =\n1// é").lines ∧
      EndsAlike (execute "new x 1").result (execute "new\nx // =\n1// é").result := by
  have hread : tokenize "new x 1" = .ok [⟨.new, "new", ⟨1, 1⟩⟩, ⟨.identifier, "x", ⟨1, 5⟩⟩,
      ⟨.number, "1", ⟨1, 7⟩⟩, ⟨.endOfInput, "", ⟨1, 8⟩⟩] := by decide +kernel
  have hread' : tokenize "new\nx // =\n1// é" = .ok [⟨.new, "new", ⟨1, 1⟩⟩,
      ⟨.identifier, "x", ⟨2, 1⟩⟩, ⟨.number, "1", ⟨3, 1⟩⟩, ⟨.endOfInput, "", ⟨3, 6⟩⟩] := by
    decide +kernel
  have hwords : wordsOf "new x 1".toList = (unsignedWords, []) :=
    exists_tokenize_iff.mp ⟨_, hread, rfl⟩
  have hwords' : wordsOf "new\nx // =\n1// é".toList = (unsignedWords, []) :=
    exists_tokenize_iff.mp ⟨_, hread', rfl⟩
  obtain ⟨lead, hwritten⟩ := wordsOf_eq_iff.mp hwords
  obtain ⟨lead', hwritten'⟩ := wordsOf_eq_iff.mp hwords'
  exact ⟨⟨lead, hwritten⟩, ⟨lead', hwritten'⟩, execute_of_layouts hwritten hwritten' rfl⟩

end SumScript
