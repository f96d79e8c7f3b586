import SumScript.Proofs.Program.Viable

/-!
# What the parser looks at

The parser decides by the kinds of its tokens, and it reads the texts of numbers
and names.  Nothing else of a token matters to it: neither the texts of the other
tokens nor any position.  Two lists of tokens that *agree* in kinds and in the
texts that are read have derivations of the same programs
(`Program.Derives.of_agree`), and where one list cannot be read, neither can the
other, at the same index and for the same reason (`Place.walk_of_agree`).

The numbers of a program play no part in the grammar either.  So derivations
carry over from any numbers to any others, with the literals standing for the
same naturals.
-/

namespace SumScript

/-! ## Agreement -/

/-- Tokens that the parser cannot tell apart. -/
structure Token.Agrees (first second : Token) : Prop where
  kind : second.kind = first.kind
  text : first.kind = .number ∨ first.kind = .identifier → second.text = first.text

/-- Lists of tokens that agree one by one. -/
abbrev Agree : List Token → List Token → Prop := List.Forall₂ Token.Agrees

theorem Agree.refl (tokens : List Token) : Agree tokens tokens :=
  List.forall₂_same.mpr fun _ _ => ⟨rfl, fun _ => rfl⟩

theorem Agree.exists_append {first second tokens : List Token}
    (h : Agree (first ++ second) tokens) :
    ∃ first' second', tokens = first' ++ second' ∧ Agree first first' ∧ Agree second second' := by
  induction first generalizing tokens with
  | nil => exact ⟨[], tokens, rfl, .nil, h⟩
  | cons token first ih =>
      obtain _ | ⟨htoken, htail⟩ := h
      obtain ⟨first', second', rfl, hfirst, hsecond⟩ := ih htail
      exact ⟨_ :: first', second', rfl, .cons htoken hfirst, hsecond⟩

theorem Agree.exists_singleton {token : Token} {tokens : List Token} (h : Agree [token] tokens) :
    ∃ token', tokens = [token'] ∧ token.Agrees token' := by
  obtain _ | ⟨htoken, _ | _⟩ := h
  exact ⟨_, rfl, htoken⟩

/-! ## Derivations -/

section

variable {ν μ : Type} [NumberSystem ν] [NumberSystem μ]

/-- Numbers that the same literal denotes. -/
def SameLiteral (x : ν) (y : μ) : Prop :=
  ∃ n : Nat, x = NumberSystem.ofNat n ∧ y = NumberSystem.ofNat n

theorem SameLiteral.eq (x y : ν) (h : SameLiteral x y) : x = y := by
  obtain ⟨n, rfl, rfl⟩ := h
  rfl

theorem Operand.of_agrees {e : Expr ν} {token token' : Token} (h : Operand e token)
    (hagrees : token.Agrees token') :
    ∃ e' : Expr μ, Operand e' token' ∧ e.Related SameLiteral e' := by
  cases h with
  | number hkind hvalue =>
      obtain ⟨n, hn, rfl⟩ := Option.map_eq_some_iff.mp hvalue
      rw [← hagrees.text (Or.inl hkind)] at hn
      refine ⟨.number (NumberSystem.ofNat n), .number (hagrees.kind.trans hkind) ?_, ?_⟩
      · rw [literal?, hn]
        rfl
      · exact .number ⟨n, rfl, rfl⟩
  | var hkind =>
      rw [← hagrees.text (Or.inr hkind)]
      exact ⟨.var token'.text, .var (hagrees.kind.trans hkind), .var⟩

theorem Expr.Derives.of_agree {e : Expr ν} {tokens tokens' : List Token} (h : e.Derives tokens)
    (hagree : Agree tokens tokens') :
    ∃ e' : Expr μ, e'.Derives tokens' ∧ e.Related SameLiteral e' := by
  induction h generalizing tokens' with
  | operand hoperand =>
      obtain ⟨token', rfl, htoken⟩ := hagree.exists_singleton
      obtain ⟨e', he', hrelated⟩ := hoperand.of_agrees (μ := μ) htoken
      exact ⟨e', .operand he', hrelated⟩
  | binary _ hsign hoperand ih =>
      obtain ⟨first, second, rfl, hfirst, hsecond⟩ := hagree.exists_append
      obtain _ | ⟨asign, htail⟩ := hsecond
      obtain ⟨token', rfl, htoken⟩ := Agree.exists_singleton htail
      obtain ⟨left', hleft, hrelated⟩ := ih hfirst
      obtain ⟨right', hright, hrelated'⟩ := hoperand.of_agrees (μ := μ) htoken
      exact ⟨_, .binary hleft (asign.kind.trans hsign) hright, .binary hrelated hrelated'⟩

theorem Statement.Derives.of_agree {s : Statement ν} {tokens tokens' : List Token}
    (h : s.Derives tokens) (hagree : Agree tokens tokens') :
    ∃ s' : Statement μ, s'.Derives tokens' ∧ s.Related SameLiteral s' := by
  cases h with
  | declare hnew hname hequals hvalue hsemicolon =>
      obtain _ | ⟨anew, _ | ⟨aname, _ | ⟨aequals, hrest⟩⟩⟩ := hagree
      obtain ⟨used, _, rfl, hused, hend⟩ := Agree.exists_append hrest
      obtain ⟨semicolon', rfl, asemicolon⟩ := hend.exists_singleton
      obtain ⟨value', hvalue', hrelated⟩ := hvalue.of_agree (μ := μ) hused
      rw [← aname.text (Or.inr hname)]
      exact ⟨_, .declare (anew.kind.trans hnew) (aname.kind.trans hname)
        (aequals.kind.trans hequals) hvalue' (asemicolon.kind.trans hsemicolon), .declare hrelated⟩
  | assign hname hequals hvalue hsemicolon =>
      obtain _ | ⟨aname, _ | ⟨aequals, hrest⟩⟩ := hagree
      obtain ⟨used, _, rfl, hused, hend⟩ := Agree.exists_append hrest
      obtain ⟨semicolon', rfl, asemicolon⟩ := hend.exists_singleton
      obtain ⟨value', hvalue', hrelated⟩ := hvalue.of_agree (μ := μ) hused
      rw [← aname.text (Or.inr hname)]
      exact ⟨_, .assign (aname.kind.trans hname) (aequals.kind.trans hequals) hvalue'
        (asemicolon.kind.trans hsemicolon), .assign hrelated⟩
  | print hprint hleft hvalue hright hsemicolon =>
      obtain _ | ⟨aprint, _ | ⟨aleft, hrest⟩⟩ := hagree
      obtain ⟨used, _, rfl, hused, hend⟩ := Agree.exists_append hrest
      obtain _ | ⟨aright, hend⟩ := hend
      obtain ⟨semicolon', rfl, asemicolon⟩ := Agree.exists_singleton hend
      obtain ⟨value', hvalue', hrelated⟩ := hvalue.of_agree (μ := μ) hused
      exact ⟨_, .print (aprint.kind.trans hprint) (aleft.kind.trans hleft) hvalue'
        (aright.kind.trans hright) (asemicolon.kind.trans hsemicolon), .print hrelated⟩

theorem Program.Derives.of_agree {p : Program ν} {tokens tokens' : List Token}
    (h : Program.Derives p tokens) (hagree : Agree tokens tokens') :
    ∃ q : Program μ, Program.Derives q tokens' ∧ Program.Related SameLiteral p q := by
  induction h generalizing tokens' with
  | nil =>
      cases hagree
      exact ⟨[], .nil, .nil⟩
  | cons hstatement _ ih =>
      obtain ⟨used, rest, rfl, hused, hrest⟩ := hagree.exists_append
      obtain ⟨s', hs', hrelated⟩ := hstatement.of_agree (μ := μ) hused
      obtain ⟨q, hq, hrelated'⟩ := ih hrest
      exact ⟨s' :: q, .cons hs' hq, .cons hrelated hrelated'⟩

/-- Lists of tokens that agree are read alike, whatever the numbers. -/
theorem Program.ofTokens_of_agree {p : Program ν} {tokens tokens' : List Token}
    (h : Program.ofTokens tokens = .ok p) (hagree : Agree tokens tokens') :
    ∃ q : Program μ, Program.ofTokens tokens' = .ok q ∧ Program.Related SameLiteral p q := by
  obtain ⟨used, marker, rest, rfl, hderives, hkind⟩ := Program.ofTokens_eq_ok_iff.mp h
  obtain ⟨used', _, rfl, hused, hend⟩ := Agree.exists_append hagree
  obtain _ | ⟨hmarker, _⟩ := hend
  obtain ⟨q, hq, hrelated⟩ := hderives.of_agree (μ := μ) hused
  refine ⟨q, Program.ofTokens_eq_ok_iff.mpr ?_, hrelated⟩
  exact ⟨used', _, _, rfl, hq, hmarker.kind.trans hkind⟩

end

/-! ## Errors -/

/-- The error at a token: another kind was expected, or any other token. -/
def Token.blame (token : Token) : Option TokenKind → ParseError
  | none => .unexpected token.text token.position
  | some kind => .expected kind token.text token.position

theorem Token.Agrees.isOperand {token token' : Token} (h : token.Agrees token') :
    token'.isOperand = token.isOperand := by
  by_cases hnumber : token.kind = .number
  · simp [Token.isOperand, h.kind, h.text (Or.inl hnumber)]
  · simp [Token.isOperand, h.kind, hnumber]

/-- Two steps go to the same place, or both are stuck for the same reason. -/
def StepsAlike (token token' : Token) (step step' : Except ParseError Place) : Prop :=
  (∃ next, step = .ok next ∧ step' = .ok next) ∨
    ∃ cause, step = .error (token.blame cause) ∧ step' = .error (token'.blame cause)

theorem Place.stepExpected_of_agrees (kind : TokenKind) (next : Place) {token token' : Token}
    (h : token.Agrees token') :
    StepsAlike token token' (stepExpected kind next token) (stepExpected kind next token') := by
  unfold stepExpected
  rw [h.kind]
  split
  · exact Or.inl ⟨next, rfl, rfl⟩
  · exact Or.inr ⟨some kind, rfl, rfl⟩

theorem Place.stepClose_of_agrees (printing : Bool) {token token' : Token}
    (h : token.Agrees token') :
    StepsAlike token token' (stepClose printing token) (stepClose printing token') := by
  cases printing with
  | true => exact stepExpected_of_agrees .rightParen (.close false) h
  | false => exact stepExpected_of_agrees .semicolon .statement h

theorem Place.step_of_agrees (place : Place) {token token' : Token} (h : token.Agrees token') :
    StepsAlike token token' (place.step token) (place.step token') := by
  cases place with
  | statement =>
      simp only [Place.step, h.kind]
      split
      · exact Or.inl ⟨_, rfl, rfl⟩
      · exact Or.inl ⟨_, rfl, rfl⟩
      · exact Or.inl ⟨_, rfl, rfl⟩
      · exact Or.inl ⟨_, rfl, rfl⟩
      · exact Or.inr ⟨none, rfl, rfl⟩
  | name => exact stepExpected_of_agrees .identifier .equals h
  | equals => exact stepExpected_of_agrees .equals (.operand false) h
  | leftParen => exact stepExpected_of_agrees .leftParen (.operand true) h
  | operand printing =>
      simp only [Place.step, h.isOperand]
      split
      · exact Or.inl ⟨_, rfl, rfl⟩
      · exact Or.inr ⟨none, rfl, rfl⟩
  | chain printing =>
      simp only [Place.step, h.kind]
      split
      · exact Or.inl ⟨_, rfl, rfl⟩
      · exact stepClose_of_agrees printing h
  | close printing => exact stepClose_of_agrees printing h
  | finished => exact Or.inl ⟨_, rfl, rfl⟩

/-- Over lists that agree the machine reaches the same place, or it is stuck at the
same index for the same reason. -/
theorem Place.walk_of_agree (place : Place) {tokens tokens' : List Token}
    (h : Agree tokens tokens') :
    (∃ next, place.walk tokens = .ok next ∧ place.walk tokens' = .ok next) ∨
      ∃ (k : Nat) (token token' : Token) (cause : Option TokenKind),
        tokens[k]? = some token ∧ tokens'[k]? = some token' ∧
          place.walk tokens = .error (token.blame cause) ∧
          place.walk tokens' = .error (token'.blame cause) := by
  induction h generalizing place with
  | nil => exact Or.inl ⟨place, rfl, rfl⟩
  | @cons token token' tokens tokens' htoken _ ih =>
      rcases place.step_of_agrees htoken with ⟨next, hstep, hstep'⟩ | ⟨cause, hstep, hstep'⟩
      · rw [Place.walk, Place.walk, hstep, hstep']
        rcases ih next with hwalk | ⟨k, found, found', cause, hget, hget', hwalk, hwalk'⟩
        · exact Or.inl hwalk
        · exact Or.inr ⟨k + 1, found, found', cause, hget, hget', hwalk, hwalk'⟩
      · rw [Place.walk, Place.walk, hstep, hstep']
        exact Or.inr ⟨0, token, token', cause, rfl, rfl, rfl, rfl⟩

section

variable {ν : Type} [NumberSystem ν]

theorem Program.ofTokens_error_iff_verdict {tokens : List Token} {e : ParseError} :
    (Program.ofTokens tokens : Except ParseError (Program ν)) = .error e ↔
      Place.statement.verdict tokens = .error e := by
  rw [verdict_eq_ofTokens (ν := ν)]
  cases (Program.ofTokens tokens : Except ParseError (Program ν)) with
  | error e' => simp [Except.map]
  | ok p => simp [Except.map]

/-- Where one of two lists that agree cannot be read, the other cannot either, for
the same reason at the same index. -/
theorem Program.ofTokens_error_of_agree {tokens tokens' : List Token} {e : ParseError}
    (h : (Program.ofTokens tokens : Except ParseError (Program ν)) = .error e)
    (hagree : Agree tokens tokens') :
    (e = .endOfTokens ∧
        (Program.ofTokens tokens' : Except ParseError (Program ν)) = .error .endOfTokens) ∨
      ∃ (k : Nat) (token token' : Token) (cause : Option TokenKind),
        tokens[k]? = some token ∧ tokens'[k]? = some token' ∧ e = token.blame cause ∧
          (Program.ofTokens tokens' : Except ParseError (Program ν)) =
            .error (token'.blame cause) := by
  rw [Program.ofTokens_error_iff_verdict, Place.verdict] at h
  simp only [Program.ofTokens_error_iff_verdict, Place.verdict]
  rcases Place.statement.walk_of_agree hagree with
    ⟨next, hwalk, hwalk'⟩ | ⟨k, token, token', cause, hget, hget', hwalk, hwalk'⟩
  · rw [hwalk] at h
    rw [hwalk']
    refine Or.inl ?_
    cases next <;> cases h <;> exact ⟨rfl, rfl⟩
  · rw [hwalk] at h
    rw [hwalk']
    cases h
    exact Or.inr ⟨k, token, token', cause, hget, hget', rfl, rfl⟩

/-! ## Readings -/

/-- What two lists of tokens are read as, if the parser cannot tell them apart: the same
program, or the same error with the text and the position that each list has at one
index. -/
inductive ReadAlike (tokens tokens' : List Token) :
    Except ParseError (Program ν) → Except ParseError (Program ν) → Prop where
  | program (p : Program ν) : ReadAlike tokens tokens' (.ok p) (.ok p)
  | endOfTokens : ReadAlike tokens tokens' (.error .endOfTokens) (.error .endOfTokens)
  | blame {k : Nat} {token token' : Token} (cause : Option TokenKind) :
      tokens[k]? = some token → tokens'[k]? = some token' →
      ReadAlike tokens tokens' (.error (token.blame cause)) (.error (token'.blame cause))

/-- The parser looks at the kinds of tokens and at the texts of numbers and names, and at
nothing else. -/
theorem Program.ofTokens_readAlike {tokens tokens' : List Token} (h : Agree tokens tokens') :
    ReadAlike tokens tokens' (Program.ofTokens tokens : Except ParseError (Program ν))
      (Program.ofTokens tokens') := by
  cases hread : (Program.ofTokens tokens : Except ParseError (Program ν)) with
  | ok p =>
      obtain ⟨q, hread', hrelated⟩ := Program.ofTokens_of_agree (μ := ν) hread h
      obtain rfl : p = q := hrelated.eq SameLiteral.eq
      rw [hread']
      exact .program p
  | error e =>
      rcases Program.ofTokens_error_of_agree hread h with
        ⟨rfl, hread'⟩ | ⟨k, token, token', cause, hget, hget', rfl, hread'⟩
      · rw [hread']
        exact .endOfTokens
      · rw [hread']
        exact .blame cause hget hget'

end

/-- The tokens of a print statement that goes on with a sign instead of its end. -/
def unendedTokens : List Token :=
  [⟨.print, "print", ⟨1, 1⟩⟩, ⟨.leftParen, "(", ⟨1, 6⟩⟩, ⟨.number, "07", ⟨1, 7⟩⟩,
    ⟨.rightParen, ")", ⟨1, 9⟩⟩, ⟨.equals, "=", ⟨1, 10⟩⟩]

/-- The same kinds and the same number at other places, with signs and words that are not
theirs. -/
def mislabelledTokens : List Token :=
  [⟨.print, "new", ⟨9, 9⟩⟩, ⟨.leftParen, "", ⟨0, 0⟩⟩, ⟨.number, "07", ⟨3, 1⟩⟩,
    ⟨.rightParen, "print", ⟨3, 1⟩⟩, ⟨.equals, ";", ⟨2, 0⟩⟩]

theorem unendedTokens_agree : Agree unendedTokens mislabelledTokens := by
  refine .cons ⟨rfl, ?_⟩ (.cons ⟨rfl, ?_⟩ (.cons ⟨rfl, ?_⟩ (.cons ⟨rfl, ?_⟩
    (.cons ⟨rfl, ?_⟩ .nil))))
  all_goals decide

theorem Program.ofTokens_mislabelledTokens :
    ReadAlike unendedTokens mislabelledTokens
        (Program.ofTokens unendedTokens : Except ParseError (Program Double))
        (Program.ofTokens mislabelledTokens) ∧
      (Program.ofTokens unendedTokens : Except ParseError (Program Double)) =
        .error (.expected .semicolon "=" ⟨1, 10⟩) ∧
      (Program.ofTokens mislabelledTokens : Except ParseError (Program Double)) =
        .error (.expected .semicolon ";" ⟨2, 0⟩) :=
  ⟨Program.ofTokens_readAlike unendedTokens_agree, by decide +kernel, by decide +kernel⟩

end SumScript
