import SumScript.Proofs.Program.Agreement

/-!
# Programs one after the other

Two laws say how far the parser looks.  A statement ends with its semicolon, so a
list of tokens that begins with whole statements is read as these statements and
then whatever the rest is read as, errors included (`Program.Derives.ofTokens_append`).
And nothing gets past an end marker: the machine is finished at it or stuck
(`Place.step_marker`), so what comes after the marker does not count, and the tokens
never run out before an error or the end is found
(`Program.exists_blame_of_marker`).
-/

namespace SumScript

/-! ## The end marker -/

/-- Over an end marker the machine goes to the end or nowhere. -/
theorem Place.step_marker {place next : Place} {marker : Token}
    (hmarker : marker.kind = .endOfInput) (h : place.step marker = .ok next) :
    next = .finished := by
  cases place with
  | statement =>
      simp only [Place.step, hmarker, Except.ok.injEq] at h
      exact h.symm
  | name | equals | leftParen => simp [Place.step, Place.stepExpected, hmarker] at h
  | operand printing => simp [Place.step, Token.isOperand, hmarker] at h
  | chain printing | close printing =>
      cases printing <;>
        simp [Place.step, Place.stepClose, Place.stepExpected, Operator.ofKind?, hmarker] at h
  | finished =>
      cases h
      rfl

theorem Place.walk_marker (place : Place) {marker : Token} (h : marker.kind = .endOfInput)
    (tokens rest : List Token) :
    place.walk (tokens ++ marker :: rest) = place.walk (tokens ++ [marker]) := by
  rw [Place.walk_append, Place.walk_append]
  cases place.walk tokens with
  | error e => rfl
  | ok middle =>
      cases hstep : middle.step marker with
      | error e => simp only [Place.walk, hstep]
      | ok next => simp only [Place.walk, hstep, Place.step_marker h hstep, Place.walk_finished]

theorem Place.eq_finished_of_walk {place next : Place} {marker : Token}
    (hmarker : marker.kind = .endOfInput) {tokens rest : List Token}
    (h : place.walk (tokens ++ marker :: rest) = .ok next) : next = .finished := by
  rw [Place.walk_marker place hmarker] at h
  cases hwalk : place.walk tokens with
  | error e =>
      rw [Place.walk_append, hwalk] at h
      cases h
  | ok middle =>
      rw [Place.walk_concat hwalk] at h
      exact Place.step_marker hmarker h

section

variable {ν : Type} [NumberSystem ν]

/-- Tokens with an end marker among them do not run out: an error names one of them. -/
theorem Program.exists_blame_of_marker {tokens : List Token} {marker : Token} {e : ParseError}
    (hmem : marker ∈ tokens) (hmarker : marker.kind = .endOfInput)
    (h : (Program.ofTokens tokens : Except ParseError (Program ν)) = .error e) :
    ∃ token ∈ tokens, ∃ cause, e = token.blame cause := by
  rw [Program.ofTokens_error_iff_verdict] at h
  rcases Place.verdict_error h with hwalk | ⟨-, next, hwalk⟩
  · obtain ⟨before, token, after, middle, rfl, -, hstep⟩ := Place.walk_error hwalk
    refine ⟨token, by simp, ?_⟩
    cases Place.step_error hstep with
    | unexpected => exact ⟨none, rfl⟩
    | @expected kind => exact ⟨some kind, rfl⟩
  · obtain ⟨before, after, rfl⟩ := List.append_of_mem hmem
    rw [Place.eq_finished_of_walk hmarker hwalk] at hwalk
    rw [Place.verdict_eq_ok_iff.mpr hwalk] at h
    cases h

/-- What comes after an end marker does not count. -/
theorem Program.ofTokens_marker {marker : Token} (h : marker.kind = .endOfInput)
    (tokens junk : List Token) :
    (Program.ofTokens (tokens ++ marker :: junk) : Except ParseError (Program ν)) =
      Program.ofTokens (tokens ++ [marker]) := by
  cases hread : (Program.ofTokens (tokens ++ [marker]) : Except ParseError (Program ν)) with
  | error e =>
      rw [Program.ofTokens_error_iff_verdict] at hread ⊢
      rw [Place.verdict, Place.walk_marker _ h]
      exact hread
  | ok p =>
      obtain ⟨used, found, rest, heq, hderives, hfound⟩ := Program.ofTokens_eq_ok_iff.mp hread
      refine Program.ofTokens_eq_ok_iff.mpr ⟨used, found, rest ++ junk, ?_, hderives, hfound⟩
      rw [List.append_cons, heq, List.append_assoc, List.cons_append]

/-! ## Statements before other tokens -/

theorem Program.parseFrom_of_error (done : List (Statement ν)) {token : Token}
    {tail rest : List Token} {e : ParseError} (hkind : token.kind ≠ .endOfInput)
    (h : (Statement.parse : Parser (Statement ν)) (token :: tail) = (.error e, rest)) :
    Program.parseFrom done (token :: tail) = (.error e, rest) := by
  rw [Program.parseFrom, if_neg hkind]
  split
  next heq => rw [h] at heq; cases heq; rfl
  next heq => rw [h] at heq; cases heq

/-- The statements read before do not matter for those that follow. -/
theorem Program.parseFrom_append (done before : List (Statement ν)) (tokens : List Token) :
    Program.parseFrom (done ++ before) tokens =
      ((Program.parseFrom done tokens).1.map (before.reverse ++ ·),
        (Program.parseFrom done tokens).2) := by
  fun_induction Program.parseFrom done tokens with
  | case1 done =>
      rw [Program.parseFrom]
      rfl
  | case2 done token rest hkind =>
      rw [Program.parseFrom_marker _ hkind]
      simp [Except.map]
  | case3 done token tail hkind e rest hparse =>
      rw [Program.parseFrom_of_error _ hkind hparse]
      rfl
  | case4 done token tail hkind s rest hparse ih =>
      obtain ⟨used, heq, hderives⟩ := Statement.parse_eq_ok_iff.mp hparse
      rw [heq, Program.parseFrom_statement _ hderives]
      exact ih

theorem Program.Derives.ofTokens_append {p : Program ν} {used : List Token}
    (h : Program.Derives p used) (tokens : List Token) :
    Program.ofTokens (used ++ tokens) = (Program.ofTokens tokens).map (p ++ ·) := by
  have hread := h.parseFrom_append [] tokens
  rw [List.append_nil] at hread
  have hfrom := Program.parseFrom_append [] p.reverse tokens
  rw [List.nil_append, List.reverse_reverse] at hfrom
  rw [Program.ofTokens, Program.parse, hread, hfrom]
  rfl

/-- Tokens without an end marker that are read with one after them are a derivation: the
marker that was found stands among the tokens otherwise. -/
theorem Program.derives_of_ofTokens {p : Program ν} {tokens : List Token} {marker : Token}
    (hnone : ∀ token ∈ tokens, token.kind ≠ .endOfInput)
    (h : Program.ofTokens (tokens ++ [marker]) = .ok p) : Program.Derives p tokens := by
  obtain ⟨used, found, rest, heq, hderives, hfound⟩ := Program.ofTokens_eq_ok_iff.mp h
  rcases List.eq_nil_or_concat rest with rfl | ⟨more, last, rfl⟩
  · rwa [List.append_inj_left' heq rfl]
  · rw [List.concat_eq_append, ← List.cons_append, ← List.append_assoc] at heq
    have hmem : found ∈ tokens := by
      rw [List.append_inj_left' heq rfl]
      simp
    exact absurd hfound (hnone found hmem)

/-- Reading respects sequences of statements, and it is blind past the end marker.
Tokens that are read as a program by themselves, with a marker after them, are read as
that program before any other tokens, and what these are read as comes after it, be it
a program or an error. -/
theorem Program.ofTokens_sequence (tokens : List Token) {marker : Token}
    (hmarker : marker.kind = .endOfInput) :
    ((∀ token ∈ tokens, token.kind ≠ .endOfInput) →
      ∀ p : Program ν, Program.ofTokens (tokens ++ [marker]) = .ok p →
        ∀ more, Program.ofTokens (tokens ++ more) = (Program.ofTokens more).map (p ++ ·)) ∧
    ∀ junk, (Program.ofTokens (tokens ++ [marker] ++ junk) : Except ParseError (Program ν)) =
      Program.ofTokens (tokens ++ [marker]) := by
  constructor
  · intro hnone p hread more
    exact (Program.derives_of_ofTokens hnone hread).ofTokens_append more
  · intro junk
    rw [List.append_assoc]
    exact Program.ofTokens_marker hmarker tokens junk

end

/-- The tokens of a print statement. -/
def printTokens : List Token :=
  [⟨.print, "print", ⟨1, 1⟩⟩, ⟨.leftParen, "(", ⟨1, 6⟩⟩, ⟨.identifier, "x", ⟨1, 7⟩⟩,
    ⟨.rightParen, ")", ⟨1, 8⟩⟩, ⟨.semicolon, ";", ⟨1, 9⟩⟩]

/-- Another print statement comes after the first one, or a sign that starts no
statement, or tokens after an end marker. -/
theorem Program.ofTokens_printTokens :
    (Program.ofTokens (printTokens ++ (printTokens ++ [.ofKind .endOfInput])) =
        .ok [Statement.print (.var (ν := Double) "x"), .print (.var "x")]) ∧
      (Program.ofTokens (printTokens ++ [⟨.equals, "=", ⟨9, 9⟩⟩]) :
        Except ParseError (Program Double)) = .error (.unexpected "=" ⟨9, 9⟩) ∧
      Program.ofTokens (printTokens ++ [.ofKind .endOfInput] ++ [⟨.equals, "=", ⟨9, 9⟩⟩]) =
        .ok [Statement.print (.var (ν := Double) "x")] := by
  have hread : Program.ofTokens (printTokens ++ [.ofKind .endOfInput]) =
      .ok [Statement.print (.var (ν := Double) "x")] := by
    decide +kernel
  have hstray : (Program.ofTokens [⟨.equals, "=", ⟨9, 9⟩⟩] : Except ParseError (Program Double)) =
      .error (.unexpected "=" ⟨9, 9⟩) := by
    decide +kernel
  have hkind : (Token.ofKind .endOfInput).kind = .endOfInput := rfl
  obtain ⟨hjoined, hmarker⟩ := Program.ofTokens_sequence (ν := Double) printTokens hkind
  have hmore := hjoined (by decide) _ hread
  refine ⟨?_, ?_, ?_⟩
  · rw [hmore, hread]
    rfl
  · rw [hmore, hstray]
    rfl
  · rw [hmarker, hread]

end SumScript
