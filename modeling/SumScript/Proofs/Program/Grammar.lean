import Mathlib.Control.Monad.Basic
import SumScript.Program.Parser
import SumScript.Proofs.Program.Shape

/-!
# The grammar of programs

A *derivation* is the writing of a program in tokens.  It is given here as three
relations, one each for expressions, statements and programs, that do not speak
of parsers.  An expression has a derivation only if it leans to the left, since
the right operand of an operation is a single token.

The parsers read derivations and nothing else.  Each of them has one lemma that
says with what value it succeeds and what it leaves
(`Expr.parse_eq_ok_iff`, `Statement.parse_eq_ok_iff`,
`Program.parse_eq_ok_iff`).  Only an expression depends on what follows it: it
must not be a sign, because a parser would go on with it.
-/

namespace SumScript

variable {ν : Type} [NumberSystem ν]

/-! ## Derivations -/

/-- `Operand e token`: the expression is a leaf, written as the token. -/
inductive Operand : Expr ν → Token → Prop where
  | number {token : Token} {value : ν} : token.kind = .number →
      literal? ν token.text = some value → Operand (.number value) token
  | var {token : Token} : token.kind = .identifier → Operand (.var token.text) token

/-- The kind of the sign of an operation. -/
def Operator.kind : Operator → TokenKind
  | .add => .plus
  | .sub => .minus

/-- `e.Derives tokens`: the tokens are the expression, written from left to right. -/
inductive Expr.Derives : Expr ν → List Token → Prop where
  | operand {e : Expr ν} {token : Token} : Operand e token → Derives e [token]
  | binary {op : Operator} {left right : Expr ν} {tokens : List Token} {sign token : Token} :
      Derives left tokens → sign.kind = op.kind → Operand right token →
      Derives (.binary op left right) (tokens ++ [sign, token])

/-- `s.Derives tokens`: the tokens are the statement. -/
inductive Statement.Derives : Statement ν → List Token → Prop where
  | declare {new name equals semicolon : Token} {value : Expr ν} {tokens : List Token} :
      new.kind = .new → name.kind = .identifier → equals.kind = .equals →
      value.Derives tokens → semicolon.kind = .semicolon →
      Derives (.declare name.text value) (new :: name :: equals :: (tokens ++ [semicolon]))
  | assign {name equals semicolon : Token} {value : Expr ν} {tokens : List Token} :
      name.kind = .identifier → equals.kind = .equals →
      value.Derives tokens → semicolon.kind = .semicolon →
      Derives (.assign name.text value) (name :: equals :: (tokens ++ [semicolon]))
  | print {print left right semicolon : Token} {value : Expr ν} {tokens : List Token} :
      print.kind = .print → left.kind = .leftParen →
      value.Derives tokens → right.kind = .rightParen → semicolon.kind = .semicolon →
      Derives (.print value) (print :: left :: (tokens ++ [right, semicolon]))

/-- `Program.Derives p tokens`: the tokens are the statements, one after the other. -/
inductive Program.Derives : Program ν → List Token → Prop where
  | nil : Derives [] []
  | cons {s : Statement ν} {p : Program ν} {used tokens : List Token} :
      s.Derives used → Derives p tokens → Derives (s :: p) (used ++ tokens)

/-- The tokens are a derivation of the program with an end marker after it.  What
follows the marker does not count. -/
def Program.Accepted (p : Program ν) (tokens : List Token) : Prop :=
  ∃ used marker rest, tokens = used ++ marker :: rest ∧ Program.Derives p used ∧
    marker.kind = .endOfInput

/-! ## Parsers -/

theorem Parser.bind_of_ok {α β : Type} {p : Parser α} {f : α → Parser β}
    {tokens rest : List Token} {a : α} (h : p tokens = (.ok a, rest)) :
    (p >>= f) tokens = f a rest := by
  simp only [Bind.bind, h]

theorem Parser.bind_of_error {α β : Type} {p : Parser α} {f : α → Parser β}
    {tokens rest : List Token} {e : ParseError} (h : p tokens = (.error e, rest)) :
    (p >>= f) tokens = (.error e, rest) := by
  simp only [Bind.bind, h]

theorem Parser.bind_eq_ok_iff {α β : Type} {p : Parser α} {f : α → Parser β}
    {tokens rest : List Token} {b : β} :
    (p >>= f) tokens = (.ok b, rest) ↔
      ∃ a middle, p tokens = (.ok a, middle) ∧ f a middle = (.ok b, rest) := by
  rcases hp : p tokens with ⟨e | a, middle⟩
  · simp [Parser.bind_of_error hp]
  · rw [Parser.bind_of_ok hp]
    constructor
    · intro h
      exact ⟨a, middle, rfl, h⟩
    · rintro ⟨a', middle', heq, h⟩
      cases heq
      exact h

theorem Parser.pure_eq_ok_iff {α : Type} {a b : α} {tokens rest : List Token} :
    (pure a : Parser α) tokens = (.ok b, rest) ↔ a = b ∧ tokens = rest := by
  simp [Pure.pure]

theorem expect_cons {kind : TokenKind} {token : Token} (h : token.kind = kind)
    (rest : List Token) : expect kind (token :: rest) = (.ok token, rest) := by
  simp [expect, h]

theorem expect_of_ne {kind : TokenKind} {token : Token} (h : token.kind ≠ kind)
    (rest : List Token) :
    expect kind (token :: rest) =
      (.error (.expected kind token.text token.position), token :: rest) := by
  simp [expect, h]

theorem expect_eq_ok_iff {kind : TokenKind} {tokens rest : List Token} {token : Token} :
    expect kind tokens = (.ok token, rest) ↔ tokens = token :: rest ∧ token.kind = kind := by
  constructor
  · intro h
    cases tokens with
    | nil => simp [expect] at h
    | cons first tail =>
        by_cases hkind : first.kind = kind
        · rw [expect_cons hkind] at h
          cases h
          exact ⟨rfl, hkind⟩
        · rw [expect_of_ne hkind] at h
          cases h
  · rintro ⟨rfl, hkind⟩
    exact expect_cons hkind rest

/-! ## Expressions -/

theorem Expr.ofToken_eq_ok_iff {token : Token} {e : Expr ν} :
    Expr.ofToken token = .ok e ↔ Operand e token := by
  constructor
  · intro h
    unfold Expr.ofToken at h
    split at h
    next hkind =>
      split at h
      next value hvalue => cases h; exact .number hkind hvalue
      next => cases h
    next hkind => cases h; exact .var hkind
    next => cases h
  · intro h
    cases h with
    | number hkind hvalue => simp [Expr.ofToken, hkind, hvalue]
    | var hkind => simp [Expr.ofToken, hkind]

theorem Operator.ofKind?_eq_some_iff {kind : TokenKind} {op : Operator} :
    Operator.ofKind? kind = some op ↔ kind = op.kind := by
  cases op <;> cases kind <;> simp [Operator.ofKind?, Operator.kind]

/-- The tokens go on with something else than a sign. -/
def NoSign (tokens : List Token) : Prop := ∀ token ∈ tokens.head?, Operator.ofKind? token.kind = none

theorem Expr.parseChain_of_noSign (left : Expr ν) {rest : List Token} (h : NoSign rest) :
    Expr.parseChain left rest = (.ok left, rest) := by
  cases rest with
  | nil => rfl
  | cons token rest => simp [Expr.parseChain, h token rfl]

/-- A parser that has read a derivation goes on with the rest of the chain. -/
theorem Expr.Derives.parse_append {e : Expr ν} {used : List Token} (h : e.Derives used)
    (rest : List Token) : Expr.parse (used ++ rest) = Expr.parseChain e rest := by
  induction h generalizing rest with
  | operand hoperand =>
      have hfirst := Expr.ofToken_eq_ok_iff.mpr hoperand
      exact Parser.bind_of_ok (by simp [Expr.parseOperand, hfirst])
  | binary _ hsign hoperand ih =>
      have hop := Operator.ofKind?_eq_some_iff.mpr hsign
      have hright := Expr.ofToken_eq_ok_iff.mpr hoperand
      rw [List.append_assoc, ih]
      simp [Expr.parseChain, hop, hright]

/-- A chain that begins after a derivation makes it longer, and ends before
something else than a sign. -/
theorem Expr.parseChain_derives {left e : Expr ν} {tokens rest : List Token}
    (h : Expr.parseChain left tokens = (.ok e, rest)) {before : List Token}
    (hleft : left.Derives before) :
    ∃ used, tokens = used ++ rest ∧ e.Derives (before ++ used) ∧ NoSign rest := by
  fun_induction Expr.parseChain left tokens generalizing before with
  | case1 left =>
      cases h
      exact ⟨[], rfl, by simpa using hleft, by simp [NoSign]⟩
  | case2 left sign tail hop =>
      cases h
      exact ⟨[], rfl, by simpa using hleft, by simpa [NoSign] using hop⟩
  | case3 => cases h
  | case4 => cases h
  | case5 left sign op hop token tail right hright ih =>
      have hbinary := Expr.Derives.binary hleft (Operator.ofKind?_eq_some_iff.mp hop)
        (Expr.ofToken_eq_ok_iff.mp hright)
      obtain ⟨used, rfl, hderives, hend⟩ := ih h hbinary
      exact ⟨sign :: token :: used, rfl, by simpa using hderives, hend⟩

theorem Expr.parse_eq_ok_iff {e : Expr ν} {tokens rest : List Token} :
    Expr.parse tokens = (.ok e, rest) ↔
      ∃ used, tokens = used ++ rest ∧ e.Derives used ∧ NoSign rest := by
  constructor
  · intro h
    obtain ⟨first, middle, hfirst, hchain⟩ := Parser.bind_eq_ok_iff.mp h
    cases tokens with
    | nil => simp [Expr.parseOperand] at hfirst
    | cons token tail =>
        simp only [Expr.parseOperand, Prod.mk.injEq] at hfirst
        obtain ⟨hoperand, rfl⟩ := hfirst
        obtain ⟨used, rfl, hderives, hend⟩ :=
          Expr.parseChain_derives hchain (.operand (Expr.ofToken_eq_ok_iff.mp hoperand))
        exact ⟨token :: used, rfl, hderives, hend⟩
  · rintro ⟨used, rfl, hderives, hend⟩
    rw [hderives.parse_append, Expr.parseChain_of_noSign e hend]

/-! ## Statements -/

theorem noSign_cons {token : Token} {kind : TokenKind} (h : token.kind = kind)
    (hkind : Operator.ofKind? kind = none) (rest : List Token) : NoSign (token :: rest) := by
  simpa [NoSign, h] using hkind

theorem Expr.Derives.parse_ok {e : Expr ν} {used rest : List Token} (h : e.Derives used)
    (hrest : NoSign rest) : Expr.parse (used ++ rest) = (.ok e, rest) :=
  Expr.parse_eq_ok_iff.mpr ⟨used, rfl, h, hrest⟩

theorem Statement.Derives.parse_append {s : Statement ν} {used : List Token}
    (h : s.Derives used) (rest : List Token) : Statement.parse (used ++ rest) = (.ok s, rest) := by
  cases h with
  | declare hnew hname hequals hvalue hsemicolon =>
      simp only [List.cons_append, List.append_assoc, List.nil_append, Statement.parse, hnew,
        Statement.parseDeclare]
      rw [Parser.bind_of_ok (expect_cons hnew _), Parser.bind_of_ok (expect_cons hname _),
        Parser.bind_of_ok (expect_cons hequals _),
        Parser.bind_of_ok (hvalue.parse_ok (noSign_cons hsemicolon rfl rest)),
        Parser.bind_of_ok (expect_cons hsemicolon _)]
      rfl
  | assign hname hequals hvalue hsemicolon =>
      simp only [List.cons_append, List.append_assoc, List.nil_append, Statement.parse, hname,
        Statement.parseAssign]
      rw [Parser.bind_of_ok (expect_cons hname _), Parser.bind_of_ok (expect_cons hequals _),
        Parser.bind_of_ok (hvalue.parse_ok (noSign_cons hsemicolon rfl rest)),
        Parser.bind_of_ok (expect_cons hsemicolon _)]
      rfl
  | @print _ _ _ semicolon _ _ hprint hleft hvalue hright hsemicolon =>
      simp only [List.cons_append, List.append_assoc, List.nil_append, Statement.parse, hprint,
        Statement.parsePrint]
      rw [Parser.bind_of_ok (expect_cons hprint _), Parser.bind_of_ok (expect_cons hleft _),
        Parser.bind_of_ok (hvalue.parse_ok (noSign_cons hright rfl (semicolon :: rest))),
        Parser.bind_of_ok (expect_cons hright _), Parser.bind_of_ok (expect_cons hsemicolon _)]
      rfl

theorem Statement.parseDeclare_derives {s : Statement ν} {tokens rest : List Token}
    (h : Statement.parseDeclare tokens = (.ok s, rest)) :
    ∃ used, tokens = used ++ rest ∧ s.Derives used := by
  simp only [Statement.parseDeclare, Parser.bind_eq_ok_iff, expect_eq_ok_iff,
    Expr.parse_eq_ok_iff, Parser.pure_eq_ok_iff] at h
  obtain ⟨new, _, ⟨rfl, hnew⟩, name, _, ⟨rfl, hname⟩, equals, _, ⟨rfl, hequals⟩, value, _,
    ⟨used, rfl, hvalue, _⟩, semicolon, _, ⟨rfl, hsemicolon⟩, rfl, rfl⟩ := h
  exact ⟨_, by simp, .declare hnew hname hequals hvalue hsemicolon⟩

theorem Statement.parseAssign_derives {s : Statement ν} {tokens rest : List Token}
    (h : Statement.parseAssign tokens = (.ok s, rest)) :
    ∃ used, tokens = used ++ rest ∧ s.Derives used := by
  simp only [Statement.parseAssign, Parser.bind_eq_ok_iff, expect_eq_ok_iff,
    Expr.parse_eq_ok_iff, Parser.pure_eq_ok_iff] at h
  obtain ⟨name, _, ⟨rfl, hname⟩, equals, _, ⟨rfl, hequals⟩, value, _,
    ⟨used, rfl, hvalue, _⟩, semicolon, _, ⟨rfl, hsemicolon⟩, rfl, rfl⟩ := h
  exact ⟨_, by simp, .assign hname hequals hvalue hsemicolon⟩

theorem Statement.parsePrint_derives {s : Statement ν} {tokens rest : List Token}
    (h : Statement.parsePrint tokens = (.ok s, rest)) :
    ∃ used, tokens = used ++ rest ∧ s.Derives used := by
  simp only [Statement.parsePrint, Parser.bind_eq_ok_iff, expect_eq_ok_iff,
    Expr.parse_eq_ok_iff, Parser.pure_eq_ok_iff] at h
  obtain ⟨print, _, ⟨rfl, hprint⟩, left, _, ⟨rfl, hleft⟩, value, _, ⟨used, rfl, hvalue, _⟩,
    right, _, ⟨rfl, hright⟩, semicolon, _, ⟨rfl, hsemicolon⟩, rfl, rfl⟩ := h
  exact ⟨_, by simp, .print hprint hleft hvalue hright hsemicolon⟩

theorem Statement.parse_eq_ok_iff {s : Statement ν} {tokens rest : List Token} :
    Statement.parse tokens = (.ok s, rest) ↔ ∃ used, tokens = used ++ rest ∧ s.Derives used := by
  constructor
  · intro h
    unfold Statement.parse at h
    split at h
    next => cases h
    next =>
      split at h
      next => exact Statement.parseDeclare_derives h
      next => exact Statement.parsePrint_derives h
      next => exact Statement.parseAssign_derives h
      next => cases h
  · rintro ⟨used, rfl, hderives⟩
    exact hderives.parse_append rest

/-! ## Programs -/

/-- A statement does not start with the end marker. -/
theorem Statement.Derives.exists_cons {s : Statement ν} {used : List Token} (h : s.Derives used) :
    ∃ token tail, used = token :: tail ∧ token.kind ≠ .endOfInput := by
  cases h with
  | declare hnew => exact ⟨_, _, rfl, by simp [hnew]⟩
  | assign hname => exact ⟨_, _, rfl, by simp [hname]⟩
  | print hprint => exact ⟨_, _, rfl, by simp [hprint]⟩

theorem Program.parseFrom_marker (done : List (Statement ν)) {marker : Token}
    (h : marker.kind = .endOfInput) (rest : List Token) :
    Program.parseFrom done (marker :: rest) = (.ok done.reverse, marker :: rest) := by
  rw [Program.parseFrom]
  simp [h]

theorem Program.parseFrom_statement (done : List (Statement ν)) {s : Statement ν}
    {used : List Token} (h : s.Derives used) (rest : List Token) :
    Program.parseFrom done (used ++ rest) = Program.parseFrom (s :: done) rest := by
  have hparse := h.parse_append rest
  obtain ⟨token, tail, rfl, hkind⟩ := h.exists_cons
  rw [List.cons_append, Program.parseFrom, if_neg hkind]
  rw [List.cons_append] at hparse
  split
  next heq => rw [hparse] at heq; cases heq
  next heq => rw [hparse] at heq; cases heq; rfl

theorem Program.Derives.parseFrom_append {p : Program ν} {used : List Token}
    (h : Program.Derives p used) (done : List (Statement ν)) (rest : List Token) :
    Program.parseFrom done (used ++ rest) = Program.parseFrom (p.reverse ++ done) rest := by
  induction h generalizing done with
  | nil => rfl
  | cons hstatement _ ih =>
      rw [List.append_assoc, Program.parseFrom_statement done hstatement, ih]
      simp

theorem Program.parseFrom_derives {done : List (Statement ν)} {p : Program ν}
    {tokens rest : List Token} (h : Program.parseFrom done tokens = (.ok p, rest)) :
    ∃ q used, p = done.reverse ++ q ∧ tokens = used ++ rest ∧ Program.Derives q used ∧
      ∃ marker ∈ rest.head?, marker.kind = .endOfInput := by
  fun_induction Program.parseFrom done tokens with
  | case1 => cases h
  | case2 done token tail hkind =>
      cases h
      exact ⟨[], [], by simp, rfl, .nil, token, rfl, hkind⟩
  | case3 => cases h
  | case4 done token tail _ s middle hparse ih =>
      obtain ⟨q, used, rfl, rfl, hderives, hend⟩ := ih h
      obtain ⟨first, heq, hstatement⟩ := Statement.parse_eq_ok_iff.mp hparse
      exact ⟨s :: q, first ++ used, by simp, by simpa using heq, .cons hstatement hderives, hend⟩

theorem Program.parse_eq_ok_iff {p : Program ν} {tokens rest : List Token} :
    Program.parse tokens = (.ok p, rest) ↔
      ∃ used, tokens = used ++ rest ∧ Program.Derives p used ∧
        ∃ marker ∈ rest.head?, marker.kind = .endOfInput := by
  constructor
  · intro h
    obtain ⟨q, used, rfl, rfl, hderives, hend⟩ := Program.parseFrom_derives h
    exact ⟨used, rfl, hderives, hend⟩
  · rintro ⟨used, rfl, hderives, marker, hmarker, hkind⟩
    obtain ⟨tail, rfl⟩ := List.head?_eq_some_iff.mp hmarker
    rw [Program.parse, hderives.parseFrom_append, Program.parseFrom_marker _ hkind]
    simp

theorem Program.ofTokens_eq_ok_iff {p : Program ν} {tokens : List Token} :
    Program.ofTokens tokens = .ok p ↔ Program.Accepted p tokens := by
  constructor
  · intro h
    obtain ⟨used, heq, hderives, marker, hmarker, hkind⟩ :=
      Program.parse_eq_ok_iff.mp (Prod.ext h rfl)
    obtain ⟨tail, hrest⟩ := List.head?_eq_some_iff.mp hmarker
    exact ⟨used, marker, tail, hrest ▸ heq, hderives, hkind⟩
  · rintro ⟨used, marker, rest, rfl, hderives, hkind⟩
    have hparse := Program.parse_eq_ok_iff.mpr
      ⟨used, rfl, hderives, marker, List.head?_cons (l := rest), hkind⟩
    rw [Program.ofTokens, hparse]

/-! ## The shape of what is read -/

theorem Operand.isLeaf {e : Expr ν} {token : Token} (h : Operand e token) : e.isLeaf := by
  cases h <;> rfl

theorem Expr.Derives.leftComb {e : Expr ν} {tokens : List Token} (h : e.Derives tokens) :
    e.LeftComb := by
  induction h with
  | operand hoperand => cases hoperand <;> trivial
  | binary _ _ hoperand ih => exact ⟨ih, hoperand.isLeaf⟩

theorem Expr.Derives.exists_name {e : Expr ν} {tokens : List Token} (h : e.Derives tokens) :
    ∀ name ∈ e.names, ∃ token ∈ tokens, token.kind = .identifier ∧ token.text = name := by
  induction h with
  | operand hoperand =>
      intro name hname
      cases hoperand with
      | number => cases hname
      | var hkind =>
          cases List.mem_singleton.mp hname
          exact ⟨_, List.mem_singleton_self _, hkind, rfl⟩
  | binary _ _ hoperand ih =>
      intro name hname
      rcases List.mem_append.mp hname with hleft | hright
      · obtain ⟨token, htoken, hname⟩ := ih name hleft
        exact ⟨token, List.mem_append_left _ htoken, hname⟩
      · cases hoperand with
        | number => cases hright
        | var hkind =>
            cases List.mem_singleton.mp hright
            exact ⟨_, by simp, hkind, rfl⟩

/-- The numbers of an expression that is read are those of literals. -/
theorem Expr.Derives.exists_literal {e : Expr ν} {tokens : List Token} (h : e.Derives tokens) :
    ∀ x ∈ e.numbers, ∃ n : Nat, x = NumberSystem.ofNat n := by
  have operand : ∀ {e : Expr ν} {token : Token}, Operand e token →
      ∀ x ∈ e.numbers, ∃ n : Nat, x = NumberSystem.ofNat n := by
    intro e token h x hx
    cases h with
    | number _ hvalue =>
        cases List.mem_singleton.mp hx
        obtain ⟨n, -, hn⟩ := Option.map_eq_some_iff.mp hvalue
        exact ⟨n, hn.symm⟩
    | var => cases hx
  induction h with
  | operand hoperand => exact operand hoperand
  | binary _ _ hoperand ih =>
      intro x hx
      rcases List.mem_append.mp hx with hleft | hright
      · exact ih x hleft
      · exact operand hoperand x hright

/-- The expression of a statement is derived from some of its tokens. -/
theorem Statement.Derives.exists_value {s : Statement ν} {used : List Token}
    (h : s.Derives used) : ∃ tokens, tokens ⊆ used ∧ s.value.Derives tokens := by
  cases h with
  | declare _ _ _ hvalue =>
      refine ⟨_, ?_, hvalue⟩
      intro token htoken
      simp [htoken]
  | assign _ _ hvalue =>
      refine ⟨_, ?_, hvalue⟩
      intro token htoken
      simp [htoken]
  | print _ _ hvalue =>
      refine ⟨_, ?_, hvalue⟩
      intro token htoken
      simp [htoken]

theorem Statement.Derives.exists_name {s : Statement ν} {used : List Token}
    (h : s.Derives used) :
    ∀ name ∈ s.names, ∃ token ∈ used, token.kind = .identifier ∧ token.text = name := by
  obtain ⟨tokens, hsubset, hderives⟩ := h.exists_value
  have hread : ∀ name ∈ s.value.names,
      ∃ token ∈ used, token.kind = .identifier ∧ token.text = name := by
    intro name hname
    obtain ⟨token, htoken, hkind⟩ := hderives.exists_name name hname
    exact ⟨token, hsubset htoken, hkind⟩
  cases h with
  | declare _ hname => exact List.forall_mem_cons.mpr ⟨⟨_, by simp, hname, rfl⟩, hread⟩
  | assign hname => exact List.forall_mem_cons.mpr ⟨⟨_, by simp, hname, rfl⟩, hread⟩
  | print => exact hread

theorem Program.Derives.exists_statement {p : Program ν} {tokens : List Token}
    (h : Program.Derives p tokens) : ∀ s ∈ p, ∃ used, used ⊆ tokens ∧ s.Derives used := by
  induction h with
  | nil => simp
  | cons hstatement _ ih =>
      intro s hs
      rcases List.mem_cons.mp hs with rfl | hs
      · exact ⟨_, List.subset_append_left _ _, hstatement⟩
      · obtain ⟨used, hsubset, hused⟩ := ih s hs
        exact ⟨used, List.Subset.trans hsubset (List.subset_append_right _ _), hused⟩

theorem Program.Derives.exists_value {p : Program ν} {tokens : List Token}
    (h : Program.Derives p tokens) : ∀ s ∈ p, ∃ used, s.value.Derives used := by
  intro s hs
  obtain ⟨_, -, hstatement⟩ := h.exists_statement s hs
  obtain ⟨used, -, hvalue⟩ := hstatement.exists_value
  exact ⟨used, hvalue⟩

theorem Program.Derives.leftComb {p : Program ν} {tokens : List Token}
    (h : Program.Derives p tokens) : ∀ s ∈ p, s.value.LeftComb := by
  intro s hs
  obtain ⟨_, hvalue⟩ := h.exists_value s hs
  exact hvalue.leftComb

/-- The numbers of a program that is read are those of literals. -/
theorem Program.Derives.exists_literal {p : Program ν} {tokens : List Token}
    (h : Program.Derives p tokens) :
    ∀ s ∈ p, ∀ x ∈ s.value.numbers, ∃ n : Nat, x = NumberSystem.ofNat n := by
  intro s hs
  obtain ⟨_, hvalue⟩ := h.exists_value s hs
  exact hvalue.exists_literal

theorem Expr.Derives.not_paren {e : Expr ν} {tokens : List Token} (h : e.Derives tokens) :
    ∀ token ∈ tokens, token.kind ≠ .leftParen ∧ token.kind ≠ .rightParen := by
  have operand : ∀ {e : Expr ν} {token : Token}, Operand e token →
      token.kind ≠ .leftParen ∧ token.kind ≠ .rightParen := by
    intro e token h
    cases h with
    | number hkind => simp [hkind]
    | var hkind => simp [hkind]
  induction h with
  | operand hoperand => simpa using operand hoperand
  | @binary op _ _ _ _ _ _ hsign hoperand ih =>
      intro token htoken
      simp only [List.mem_append, List.mem_cons, List.not_mem_nil, or_false] at htoken
      rcases htoken with htoken | rfl | rfl
      · exact ih token htoken
      · cases op <;> simp [hsign, Operator.kind]
      · exact operand hoperand

/-- The parser accepts exactly the grammar.  The program is determined by the
tokens, its expressions lean to the left, and there are no parentheses in them. -/
theorem Program.ofTokens_iff_accepted (tokens : List Token) :
    (∀ p : Program ν, Program.ofTokens tokens = .ok p ↔ Program.Accepted p tokens) ∧
    (∀ p q : Program ν, Program.Accepted p tokens → Program.Accepted q tokens → p = q) ∧
    (∀ p : Program ν, Program.ofTokens tokens = .ok p → ∀ s ∈ p, s.value.LeftComb) ∧
    ∀ (e : Expr ν) (used : List Token), e.Derives used →
      ∀ token ∈ used, token.kind ≠ .leftParen ∧ token.kind ≠ .rightParen := by
  refine ⟨fun p => Program.ofTokens_eq_ok_iff, ?_, ?_, fun e used h => h.not_paren⟩
  · intro p q hp hq
    rw [← Program.ofTokens_eq_ok_iff] at hp hq
    rw [hp] at hq
    exact Except.ok.inj hq
  · intro p hp
    obtain ⟨used, marker, rest, _, hderives, _⟩ := Program.ofTokens_eq_ok_iff.mp hp
    exact hderives.leftComb

/-- A chain of three operands, with odd texts and a token after the end marker. -/
def chainTokens : List Token :=
  [⟨.print, "p", ⟨1, 1⟩⟩, ⟨.leftParen, "[", ⟨1, 6⟩⟩, ⟨.number, "007", ⟨1, 7⟩⟩,
    ⟨.minus, "-", ⟨1, 11⟩⟩, ⟨.identifier, "a b", ⟨1, 13⟩⟩, ⟨.plus, "+", ⟨1, 17⟩⟩,
    ⟨.identifier, "x", ⟨1, 19⟩⟩, ⟨.rightParen, ")", ⟨1, 20⟩⟩, ⟨.semicolon, ";", ⟨1, 21⟩⟩,
    ⟨.endOfInput, "", ⟨1, 22⟩⟩, ⟨.equals, "=", ⟨9, 9⟩⟩]

/-- The program of the chain. -/
def chainProgram : Program Double :=
  [.print (.binary .add (.binary .sub (.number (.ofNat 7)) (.var "a b")) (.var "x"))]

theorem accepted_chainTokens :
    Program.Accepted chainProgram chainTokens ∧
    (∀ q : Program Double, Program.Accepted q chainTokens → q = chainProgram) ∧
    ∀ s ∈ chainProgram, s.value.LeftComb := by
  have hread : Program.ofTokens chainTokens = .ok chainProgram := by decide +kernel
  obtain ⟨hiff, hunique, hcomb, _⟩ := Program.ofTokens_iff_accepted (ν := Double) chainTokens
  have haccepted := (hiff chainProgram).mp hread
  exact ⟨haccepted, fun q hq => hunique q chainProgram hq haccepted, hcomb chainProgram hread⟩

end SumScript
