import SumScript.Proofs.Context.Failure
import SumScript.Proofs.Execute.Layout
import SumScript.Proofs.Token.Lines

/-!
# Texts one after the other

Two texts that are run one after the other in the same context do what the one text
does that has a line end between them.  Each stage says so for itself.  The words of
the joined text are the words of both (`wordsOf_append_lineEnd`), a program is read
from its words alone (`Program.ofSource_eq_ok_iff_words`), derivations one after the
other are a derivation (`Program.Derives.append`), and a run goes on with the second
program exactly if the first one succeeds (`Context.run_append_eq`).
-/

namespace SumScript

variable {ν : Type} [NumberSystem ν]

/-! ## Programs from words -/

theorem not_spells_endOfInput {word : List Char} : ¬ Spells .endOfInput word := nofun

/-- Only the last token of a text is an end marker: no word is spelled as one. -/
theorem wordsOf_of_marker {source : String} {used rest : List Token} {marker : Token}
    (h : tokenize source = .ok (used ++ marker :: rest)) (hkind : marker.kind = .endOfInput) :
    wordsOf source.toList = (used.map Token.word, []) := by
  obtain ⟨lead, words, hwritten, hwords⟩ := exists_written_of_tokenize h
  rw [hwritten.wordsOf]
  rw [List.map_append, List.map_cons] at hwords
  rcases List.eq_nil_or_concat rest with rfl | ⟨more, last, rfl⟩
  · rw [List.append_inj_left' hwords rfl]
  · rw [List.concat_eq_append, List.map_append, ← List.cons_append, ← List.append_assoc] at hwords
    have hmem : marker.word ∈ words := by
      rw [← List.append_inj_left' hwords rfl]
      simp
    have hspells := hwritten.spells marker.word hmem
    rw [Token.word, hkind] at hspells
    exact absurd hspells not_spells_endOfInput

theorem Program.Derives.of_words {p : Program ν} {tokens tokens' : List Token}
    (h : Program.Derives p tokens) (hwords : tokens.map Token.word = tokens'.map Token.word) :
    Program.Derives p tokens' := by
  obtain ⟨q, hq, hrelated⟩ := h.of_agree (μ := ν) (Agree.of_words hwords)
  rwa [← hrelated.eq SameLiteral.eq] at hq

/-- The program of a text is the one that its words derive. -/
theorem Program.ofSource_eq_ok_iff_words {source : String} {p : Program ν} :
    Program.ofSource source = .ok p ↔
      ∃ tokens, Program.Derives p tokens ∧
        wordsOf source.toList = (tokens.map Token.word, []) := by
  constructor
  · intro h
    obtain ⟨_, htokens, hread⟩ := Program.ofSource_eq_ok_iff.mp h
    obtain ⟨used, marker, rest, rfl, hderives, hkind⟩ := Program.ofTokens_eq_ok_iff.mp hread
    exact ⟨used, hderives, wordsOf_of_marker htokens hkind⟩
  · rintro ⟨tokens, hderives, hwords⟩
    obtain ⟨_, htokens, hmap⟩ := exists_tokenize_iff.mpr hwords
    obtain ⟨used, _, rfl, hused, hend⟩ := List.map_eq_append_iff.mp hmap
    obtain ⟨marker, rfl, hmarker⟩ := List.map_eq_singleton_iff.mp hend
    refine Program.ofSource_eq_ok_iff.mpr ⟨_, htokens, Program.ofTokens_eq_ok_iff.mpr ?_⟩
    exact ⟨used, marker, [], rfl, hderives.of_words hused.symm, congrArg Prod.fst hmarker⟩

/-! ## Joined programs -/

theorem Program.Derives.append {p q : Program ν} {first second : List Token}
    (hp : Program.Derives p first) (hq : Program.Derives q second) :
    Program.Derives (p ++ q) (first ++ second) := by
  induction hp with
  | nil => exact hq
  | cons hstatement _ ih =>
      rw [List.append_assoc]
      exact .cons hstatement ih

theorem Program.ofSource_joined {first second : String} {p q : Program ν}
    (hp : Program.ofSource first = .ok p) (hq : Program.ofSource second = .ok q) :
    Program.ofSource (first ++ "\n" ++ second) = .ok (p ++ q) := by
  obtain ⟨tokens, hderives, hwords⟩ := Program.ofSource_eq_ok_iff_words.mp hp
  obtain ⟨tokens', hderives', hwords'⟩ := Program.ofSource_eq_ok_iff_words.mp hq
  refine Program.ofSource_eq_ok_iff_words.mpr ⟨_, hderives.append hderives', ?_⟩
  have htext : (first ++ "\n" ++ second).toList = first.toList ++ '\n' :: second.toList := by
    simp
  rw [htext, wordsOf_append_lineEnd (by rw [hwords]), hwords, hwords', List.map_append]

/-- A run of two programs goes on with the second one if the first one succeeds. -/
theorem Context.run_append_eq (ctx : Context ν) (p q : Program ν) :
    ctx.run (p ++ q) =
      match ctx.run p with
      | (next, .ok ()) => next.run q
      | (next, .error e) => (next, .error e) := by
  cases hresult : (ctx.run p).2 with
  | ok =>
      rw [Context.run_append hresult, ← Prod.eta (ctx.run p), hresult]
  | error e =>
      rw [Context.run_append_of_error hresult, ← Prod.eta (ctx.run p), hresult]

/-! ## Joined texts -/

theorem Context.runSource_of_ofSource {source : String} {p : Program ν}
    (h : Program.ofSource source = .ok p) (ctx : Context ν) :
    ctx.runSource source = ((ctx.run p).1, (ctx.run p).2.mapError .runtime) := by
  simp only [Context.runSource, h]

/-- Running two texts one after the other in a context is running the one text with a
line end between them: the lines, the variables and the end are the same, and an error
in the first text keeps all of the second from being run. -/
theorem Context.runSource_joined {first second : String} {p q : Program ν}
    (hp : Program.ofSource first = .ok p) (hq : Program.ofSource second = .ok q)
    (ctx : Context ν) :
    Program.ofSource (first ++ "\n" ++ second) = .ok (p ++ q) ∧
      ctx.runSource (first ++ "\n" ++ second) =
        (match ctx.runSource first with
          | (next, .ok ()) => next.runSource second
          | (next, .error e) => (next, .error e)) ∧
      ∀ e, (ctx.runSource first).2 = .error e →
        ctx.runSource (first ++ "\n" ++ second) = ctx.runSource first := by
  have hjoined := Program.ofSource_joined hp hq
  have hrun : ctx.runSource (first ++ "\n" ++ second) =
      match ctx.runSource first with
      | (next, .ok ()) => next.runSource second
      | (next, .error e) => (next, .error e) := by
    rw [Context.runSource_of_ofSource hjoined, Context.runSource_of_ofSource hp,
      Context.run_append_eq]
    rcases ctx.run p with ⟨next, _ | _⟩
    · rfl
    · exact (Context.runSource_of_ofSource hq next).symm
  refine ⟨hjoined, hrun, ?_⟩
  intro e he
  rw [hrun, ← Prod.eta (ctx.runSource first), he]

/-- A text that ends within a comment. -/
def commentedText : String := "new b=a;// b=b;"

/-- A text that needs another one before it. -/
def laterText : String := "a=a+b;print(a);"

/-- The first text fails if its variable does not exist yet. -/
theorem Context.runSource_commentedText :
    Program.ofSource commentedText = .ok [Statement.declare "b" (.var (ν := Double) "a")] ∧
      Program.ofSource laterText =
        .ok [Statement.assign "a" (.binary .add (.var (ν := Double) "a") (.var "b")),
          .print (.var "a")] ∧
      startedContext.runSource (commentedText ++ "\n" ++ laterText) =
        (startedContext.runSource commentedText).1.runSource laterText ∧
      (startedContext.runSource (commentedText ++ "\n" ++ laterText)).1.lines = ["0", "2"] ∧
      (Context.empty : Context Double).runSource (commentedText ++ "\n" ++ laterText) =
        Context.empty.runSource commentedText := by
  have hp : Program.ofSource commentedText =
      .ok [Statement.declare "b" (.var (ν := Double) "a")] := by
    decide +kernel
  have hq : Program.ofSource laterText =
      .ok [Statement.assign "a" (.binary .add (.var (ν := Double) "a") (.var "b")),
        .print (.var "a")] := by
    decide +kernel
  have hfirst : (startedContext.runSource commentedText).2 = .ok () := by decide +kernel
  have hfails : ((Context.empty : Context Double).runSource commentedText).2 =
      .error (.runtime (.undeclared "a")) := by
    decide +kernel
  have hlines : ((startedContext.runSource commentedText).1.runSource laterText).1.lines =
      ["0", "2"] := by
    decide +kernel
  have hjoined := (Context.runSource_joined hp hq startedContext).2.1
  rw [← Prod.eta (startedContext.runSource commentedText), hfirst] at hjoined
  refine ⟨hp, hq, hjoined, hjoined ▸ hlines, ?_⟩
  exact (Context.runSource_joined hp hq .empty).2.2 _ hfails

end SumScript
