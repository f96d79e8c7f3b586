import SumScript.Proofs.Context.Values
import SumScript.Proofs.Execute.Diagnostics
import SumScript.Proofs.Program.Source

/-!
# One line each

What a text prints and what is wrong with it is told line by line, so it has to fit
into lines.  It does: a number is printed without a line end (`Double.oneLine_text`),
and so is the message of an error (`execute_message_oneLine`).  A message quotes the
text in some places.  The character that starts no token is no line end
(`lexError_ne_lineEnd`), a token holds none (`Spells.lineEnd_notMem`), and the name in
an error of a run is a name of its program (`Context.run_error_name`).
-/

namespace SumScript

/-- The text has no line end in it. -/
def OneLine (text : String) : Prop := '\n' ∉ text.toList

instance (text : String) : Decidable (OneLine text) :=
  inferInstanceAs (Decidable ('\n' ∉ text.toList))

theorem OneLine.append {first second : String} (h : OneLine first) (h' : OneLine second) :
    OneLine (first ++ second) := by
  rw [OneLine, String.toList_append, List.mem_append]
  exact not_or.mpr ⟨h, h'⟩

theorem OneLine.between {text start stop : String} (h : OneLine text) (hstart : OneLine start)
    (hstop : OneLine stop) : OneLine (start ++ text ++ stop) :=
  (hstart.append h).append hstop

/-! ## Numbers -/

theorem lineEnd_notMem_toDigits (n : Nat) : '\n' ∉ Nat.toDigits 10 n := by
  intro hmem
  have hdigit := Nat.isDigit_of_mem_toDigits (by decide) (by decide) hmem
  exact absurd hdigit (by decide)

theorem oneLine_toString (n : Nat) : OneLine (toString n) := by
  have htext : (toString n).toList = Nat.toDigits 10 n := by simp
  rw [OneLine, htext]
  exact lineEnd_notMem_toDigits n

theorem Decimal.lineEnd_notMem_positional (d : Decimal) : '\n' ∉ d.positional := by
  have hdigits : '\n' ∉ d.digits := lineEnd_notMem_toDigits d.coefficient
  have hzeros : ∀ n, '\n' ∉ List.replicate n '0' := by
    intro n hmem
    cases List.eq_of_mem_replicate hmem
  have hpadded : ∀ n, '\n' ∉ List.replicate n '0' ++ d.digits := by
    intro n
    exact List.not_mem_append (hzeros n) hdigits
  unfold Decimal.positional
  split
  · exact List.not_mem_append hdigits (hzeros _)
  · intro hmem
    rcases List.mem_append.mp hmem with htake | hrest
    · exact hpadded _ (List.mem_of_mem_take htake)
    · rcases List.mem_cons.mp hrest with hpoint | hdrop
      · cases hpoint
      · exact hpadded _ (List.mem_of_mem_drop hdrop)

theorem Double.oneLine_text (x : Double) : OneLine x.text := by
  have hsign : ∀ negative, '\n' ∉ signMark negative := by decide
  rw [OneLine, Double.text, String.toList_ofList]
  cases x with
  | nan => decide
  | infinite negative => exact List.not_mem_append (hsign negative) (by decide)
  | finite negative m =>
      rw [Double.write]
      split
      · exact List.not_mem_append (hsign _) (by decide)
      · refine List.not_mem_append (hsign negative) ?_
        simp only [NumberStyle.write, NumberStyle.printed, if_true, ite_self, List.append_nil]
        exact Decimal.lineEnd_notMem_positional _

/-- The lines of a text are printed numbers. -/
theorem oneLine_of_mem_lines {source line : String} (h : line ∈ (execute source).lines) :
    OneLine line := by
  simp only [execute, executeOver, Context.runSource] at h
  cases hsource : (Program.ofSource source : Except Error (Program Double)) with
  | error e =>
      rw [hsource] at h
      cases h
  | ok p =>
      rw [hsource] at h
      have hempty : (Context.empty : Context Double).All fun _ => True := .empty
      have hall := hempty.run (fun _ _ _ _ _ => trivial) (p := p) fun _ _ _ _ => trivial
      obtain ⟨value, -, rfl⟩ := hall.1.printed line (List.mem_reverse.mp h)
      exact value.oneLine_text

/-! ## Messages about a text -/

theorem lexError_ne_lineEnd {source : String} {e : LexError} (h : tokenize source = .error e) :
    e.character ≠ '\n' := by
  cases hrest : (pieces source.toList).2 with
  | nil =>
      rw [tokenize_of_read hrest] at h
      cases h
  | cons c cs =>
      rw [tokenize_of_stray hrest] at h
      cases h
      rintro rfl
      have hnone := piece?_of_pieces hrest
      rw [Cut.lineEnd.piece?] at hnone
      cases hnone

theorem IsName.lineEnd_notMem {word : List Char} (h : IsName word) : '\n' ∉ word := by
  obtain ⟨c, cs, rfl, hstart, hparts⟩ := isName_iff.mp h
  intro hmem
  rcases List.mem_cons.mp hmem with rfl | hmem
  · exact absurd hstart (by decide)
  · exact absurd (hparts _ hmem) (by decide)

theorem Spells.lineEnd_notMem {kind : TokenKind} {word : List Char} (h : Spells kind word) :
    '\n' ∉ word := by
  cases h with
  | number hnumeral =>
      intro hmem
      exact absurd (hnumeral.2 _ hmem) (by decide)
  | identifier hname => exact hname.lineEnd_notMem
  | _ => decide

theorem oneLine_of_mem_tokenize {source : String} {tokens : List Token} {token : Token}
    (h : tokenize source = .ok tokens) (htoken : token ∈ tokens) : OneLine token.text := by
  obtain ⟨lead, words, hwritten, hwords⟩ := exists_written_of_tokenize h
  have hmem : token.word ∈ words ++ [(.endOfInput, "")] :=
    hwords ▸ List.mem_map_of_mem htoken
  rcases List.mem_append.mp hmem with hword | hend
  · exact (hwritten.spells token.word hword).lineEnd_notMem
  · have htext : token.text = "" := congrArg Prod.snd (List.mem_singleton.mp hend)
    rw [htext]
    decide

/-- The name in an error of a run. -/
def RuntimeError.name : RuntimeError → String
  | .redeclared name => name
  | .undeclared name => name

/-- An error of a run is about a name in the program. -/
theorem Context.run_error_name {ν : Type} [NumberSystem ν] {ctx : Context ν} {p : Program ν}
    {e : RuntimeError} (h : (ctx.run p).2 = .error e) : ∃ s ∈ p, e.name ∈ s.names := by
  rw [(ctx.run_check p).1] at h
  have hstops := Program.check_stops ctx.env.names p
  rw [h] at hstops
  obtain ⟨s, hget, hcheck⟩ := hstops
  refine ⟨s, List.mem_of_getElem? hget, ?_⟩
  rw [Statement.check] at hcheck
  cases hfirst : s.value.firstUndeclared (Program.check ctx.env.names p).declared with
  | some name =>
      rw [hfirst] at hcheck
      cases hcheck
      have hmem : name ∈ s.value.names := List.mem_of_find?_eq_some hfirst
      cases s with
      | declare | assign => exact List.mem_cons_of_mem _ hmem
      | print => exact hmem
  | none =>
      rw [hfirst] at hcheck
      cases s with
      | declare name value =>
          simp only [Statement.checkTarget] at hcheck
          split at hcheck
          next =>
            cases hcheck
            exact List.mem_cons_self
          next => cases hcheck
      | assign name value =>
          simp only [Statement.checkTarget] at hcheck
          split at hcheck
          next => cases hcheck
          next =>
            cases hcheck
            exact List.mem_cons_self
      | print value => cases hcheck

theorem Position.oneLine_message (position : Position) : OneLine position.message := by
  have hline : OneLine (" at line " ++ toString position.line ++ ", column ") :=
    (oneLine_toString _).between (by decide) (by decide)
  exact hline.append (oneLine_toString _)

theorem Token.oneLine_blame {token : Token} (h : OneLine token.text) (cause : Option TokenKind) :
    OneLine (token.blame cause).message := by
  have hplace := token.position.oneLine_message
  cases cause with
  | none =>
      have hquoted : OneLine ("Unexpected token '" ++ token.text ++ "'") :=
        h.between (by decide) (by decide)
      exact hquoted.append hplace
  | some kind =>
      have hkind : OneLine kind.name := by cases kind <;> decide
      have hexpected : OneLine ("Expected " ++ kind.name ++ " but got '") :=
        hkind.between (by decide) (by decide)
      exact (h.between hexpected (by decide)).append hplace

theorem RuntimeError.oneLine_message {e : RuntimeError} (h : OneLine e.name) :
    OneLine e.message := by
  cases e with
  | redeclared name => exact h.between (by decide) (by decide)
  | undeclared name => exact h.between (by decide) (by decide)

/-- Only a run gives an error of a run. -/
theorem exists_run_of_runtime {source : String} {e : RuntimeError}
    (h : (execute source).result = .error (.runtime e)) :
    ∃ p : Program Double, Program.ofSource source = .ok p ∧ (Context.empty.run p).2 = .error e := by
  simp only [execute, executeOver, Context.runSource] at h
  cases hsource : (Program.ofSource source : Except Error (Program Double)) with
  | error e' =>
      rw [hsource] at h
      obtain rfl : e' = .runtime e := Except.error.inj h
      unfold Program.ofSource at hsource
      split at hsource
      next => cases hsource
      next => split at hsource <;> cases hsource
  | ok p =>
      refine ⟨p, rfl, ?_⟩
      cases hrun : (Context.empty.run p).2 with
      | ok =>
          simp only [hsource, hrun] at h
          cases h
      | error e' =>
          simp only [hsource, hrun] at h
          cases h
          rfl

/-- The message of an error fits into one line. -/
theorem execute_message_oneLine {source : String} {e : Error}
    (h : (execute source).result = .error e) : OneLine e.message := by
  cases e with
  | lex e =>
      have hcharacter : OneLine e.character.toString := by
        have hne := lexError_ne_lineEnd (execute_eq_lex_iff.mp h)
        simpa [OneLine] using hne.symm
      have hquoted : OneLine ("Unexpected character '" ++ e.character.toString ++ "'") :=
        hcharacter.between (by decide) (by decide)
      exact hquoted.append e.position.oneLine_message
  | parse e =>
      obtain ⟨tokens, htokens, hread⟩ := execute_eq_parse_iff.mp h
      obtain ⟨marker, hmarker, hkind⟩ := exists_marker_of_tokenize htokens
      obtain ⟨token, htoken, cause, rfl⟩ := Program.exists_blame_of_marker hmarker hkind hread
      exact Token.oneLine_blame (oneLine_of_mem_tokenize htokens htoken) cause
  | runtime e =>
      obtain ⟨p, hsource, hrun⟩ := exists_run_of_runtime h
      obtain ⟨s, hs, hname⟩ := Context.run_error_name hrun
      have hvariable := (Program.canonical_of_ofSource hsource s hs).names e.name hname
      exact RuntimeError.oneLine_message hvariable.1.lineEnd_notMem

end SumScript
