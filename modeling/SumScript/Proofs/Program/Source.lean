import SumScript.Execute
import SumScript.Proofs.Decimal.Shortest
import SumScript.Proofs.Program.Grammar
import SumScript.Proofs.Token.Reading

/-!
# Programs as texts

`Program.source` writes a program as a text, one statement to a line.  The text
has the words of the program (`Program.readsAs_source`), and a list of tokens with
these words is a derivation of it (`Program.derives_of_words`).  So the text is
read as the program it was written from, provided that the program is *canonical*:
its names are names of variables, its expressions lean to the left, and its numbers
are read back from the way they are printed.

Nothing but canonical programs is ever read (`Program.canonical_of_ofSource`).
Over the doubles the numbers that come back are the natural ones.  A literal may
also be too great for a double, and then it is the infinity, which has no writing.
-/

namespace SumScript

section

variable {ν : Type}

/-! ## Canonical programs -/

/-- A name that is none of the two words that start statements. -/
def IsVariable (name : String) : Prop := IsName name.toList ∧ name ≠ "new" ∧ name ≠ "print"

theorem spells_identifier_iff {name : String} :
    Spells .identifier name.toList ↔ IsVariable name := by
  have hnew : name.toList ≠ "new".toList ↔ name ≠ "new" := not_congr String.toList_inj
  have hprint : name.toList ≠ "print".toList ↔ name ≠ "print" := not_congr String.toList_inj
  constructor
  · rintro (_ | _ | _ | ⟨hname, hn, hp⟩)
    exact ⟨hname, hnew.mp hn, hprint.mp hp⟩
  · rintro ⟨hname, hn, hp⟩
    exact .identifier hname (hnew.mpr hn) (hprint.mpr hp)

/-- A statement with names of variables, an expression that leans to the left, and
numbers of the given sort. -/
structure Statement.Canonical (sort : ν → Prop) (s : Statement ν) : Prop where
  names : ∀ name ∈ s.names, IsVariable name
  leftComb : s.value.LeftComb
  numbers : ∀ x ∈ s.value.numbers, sort x

/-- A program of canonical statements. -/
def Program.Canonical (sort : ν → Prop) (p : Program ν) : Prop := ∀ s ∈ p, s.Canonical sort

theorem Program.Canonical.imp {sort sort' : ν → Prop} (himp : ∀ x, sort x → sort' x)
    {p : Program ν} (h : Program.Canonical sort p) : Program.Canonical sort' p := by
  intro s hs
  obtain ⟨hnames, hcomb, hnumbers⟩ := h s hs
  exact ⟨hnames, hcomb, fun x hx => himp x (hnumbers x hx)⟩

variable [NumberSystem ν]

/-! ## Writing programs -/

/-- An expression as a text, from left to right. -/
def Expr.source : Expr ν → String
  | .number value => NumberSystem.text value
  | .var name => name
  | .binary op left right => left.source ++ " " ++ op.symbol ++ " " ++ right.source

/-- A statement as a text. -/
def Statement.source : Statement ν → String
  | .declare name value => "new " ++ name ++ " = " ++ value.source ++ ";"
  | .assign name value => name ++ " = " ++ value.source ++ ";"
  | .print value => "print(" ++ value.source ++ ");"

/-- A program as a text, each statement on a line of its own. -/
def Program.source : Program ν → String
  | [] => ""
  | s :: p => s.source ++ "\n" ++ Program.source p

/-- The words of an expression. -/
def Expr.words : Expr ν → List (TokenKind × String)
  | .number value => [(.number, NumberSystem.text value)]
  | .var name => [(.identifier, name)]
  | .binary op left right => left.words ++ (op.kind, op.symbol) :: right.words

/-- The words of a statement. -/
def Statement.words : Statement ν → List (TokenKind × String)
  | .declare name value =>
      (.new, "new") :: (.identifier, name) :: (.equals, "=") :: (value.words ++ [(.semicolon, ";")])
  | .assign name value =>
      (.identifier, name) :: (.equals, "=") :: (value.words ++ [(.semicolon, ";")])
  | .print value =>
      (.print, "print") :: (.leftParen, "(") ::
        (value.words ++ [(.rightParen, ")"), (.semicolon, ";")])

/-- The words of a program. -/
def Program.words (p : Program ν) : List (TokenKind × String) := p.flatMap Statement.words

/-! ## Reading what was written -/

/-- A stretch of text that has the words, if no character after it could go on with
the last of them. -/
def ReadsAs (text : List Char) (words : List (TokenKind × String)) : Prop :=
  ∀ rest : List Char, (∀ c ∈ rest.head?, ¬ isWordPart c) →
    wordsOf (text ++ rest) = (words ++ (wordsOf rest).1, (wordsOf rest).2)

theorem ReadsAs.nil : ReadsAs [] [] := fun _ _ => rfl

theorem ReadsAs.word {kind : TokenKind} (word : String) (h : Spells kind word.toList) :
    ReadsAs word.toList [(kind, word)] := by
  intro rest hrest
  refine wordsOf_word h ?_
  intro c hc hextends
  exact hrest c hc (TokenKind.isWordPart_of_extendsBy hextends)

section

variable {first second : List Char} {words words' : List (TokenKind × String)}

theorem ReadsAs.append_cons {c : Char} (h : ReadsAs first words) (hc : ¬ isWordPart c)
    (h' : ReadsAs (c :: second) words') : ReadsAs (first ++ c :: second) (words ++ words') := by
  intro rest hrest
  have hapart : ∀ d ∈ (c :: second ++ rest).head?, ¬ isWordPart d := by
    intro d hd
    cases hd
    exact hc
  rw [List.append_assoc, h _ hapart, h' rest hrest, List.append_assoc]

theorem ReadsAs.append_blank (h : ReadsAs first words) (h' : ReadsAs second words') :
    ReadsAs (first ++ ' ' :: second) (words ++ words') := by
  refine h.append_cons (by decide) ?_
  intro rest hrest
  exact (wordsOf_blank rfl _).trans (h' rest hrest)

theorem ReadsAs.append_lineEnd (h : ReadsAs first words) (h' : ReadsAs second words') :
    ReadsAs (first ++ '\n' :: second) (words ++ words') := by
  refine h.append_cons (by decide) ?_
  intro rest hrest
  exact (wordsOf_lineEnd _).trans (h' rest hrest)

/-- Nothing goes on with a sign. -/
theorem ReadsAs.sign {c : Char} {kind : TokenKind} (h : ReadsAs second words)
    (hspells : Spells kind [c]) (hkind : ∀ d, ¬ kind.extendsBy d) :
    ReadsAs (c :: second) ((kind, .ofList [c]) :: words) := by
  intro rest hrest
  have hword : wordsOf ((String.ofList [c]).toList ++ (second ++ rest)) = _ :=
    wordsOf_word (String.toList_ofList ▸ hspells) fun d _ => hkind d
  rw [String.toList_ofList, h rest hrest] at hword
  exact hword

end

/-- A number that is read back from the way it is printed. -/
def Readable (x : ν) : Prop := literal? ν (NumberSystem.text x) = some x

theorem Readable.spells {x : ν} (h : Readable x) : Spells .number (NumberSystem.text x).toList := by
  obtain ⟨n, hn, -⟩ := Option.map_eq_some_iff.mp h
  unfold literalValue? at hn
  split at hn
  next hdigits => exact .number ⟨hdigits.1, List.all_eq_true.mp hdigits.2⟩
  next => cases hn

theorem Operator.spells_symbol (op : Operator) : Spells op.kind op.symbol.toList := by
  cases op with
  | add => exact .plus
  | sub => exact .minus

theorem Expr.readsAs_source {e : Expr ν} (hnames : ∀ name ∈ e.names, IsVariable name)
    (hnumbers : ∀ x ∈ e.numbers, Readable x) : ReadsAs e.source.toList e.words := by
  induction e with
  | number x => exact .word _ (hnumbers x (List.mem_singleton_self x)).spells
  | var name =>
      exact .word name (spells_identifier_iff.mpr (hnames name (List.mem_singleton_self name)))
  | binary op left right ihl ihr =>
      obtain ⟨hnamesl, hnamesr⟩ := List.forall_mem_append.mp hnames
      obtain ⟨hnumbersl, hnumbersr⟩ := List.forall_mem_append.mp hnumbers
      have hsign := ReadsAs.word op.symbol op.spells_symbol
      have hreads := ((ihl hnamesl hnumbersl).append_blank hsign).append_blank
        (ihr hnamesr hnumbersr)
      simpa [Expr.source, Expr.words] using hreads

theorem readsAs_semicolon : ReadsAs [';'] [(.semicolon, ";")] := .word ";" .semicolon

/-- What stands right of the equals sign, with the sign and the end of the statement. -/
theorem Expr.readsAs_definition {e : Expr ν} (h : ReadsAs e.source.toList e.words) :
    ReadsAs ('=' :: ' ' :: (e.source.toList ++ [';']))
      ((.equals, "=") :: (e.words ++ [(.semicolon, ";")])) := by
  have hequals := ReadsAs.word "=" .equals
  have hreads := (hequals.append_blank h).append_cons (by decide) readsAs_semicolon
  simpa using hreads

theorem Statement.readsAs_source {s : Statement ν} (h : s.Canonical Readable) :
    ReadsAs s.source.toList s.words := by
  obtain ⟨hnames, -, hnumbers⟩ := h
  cases s with
  | declare name value =>
      obtain ⟨hname, hnames⟩ := List.forall_mem_cons.mp hnames
      have hvalue := Expr.readsAs_definition (Expr.readsAs_source hnames hnumbers)
      have htarget := ReadsAs.word name (spells_identifier_iff.mpr hname)
      have hreads := (ReadsAs.word "new" .new).append_blank (htarget.append_blank hvalue)
      simpa [Statement.source, Statement.words] using hreads
  | assign name value =>
      obtain ⟨hname, hnames⟩ := List.forall_mem_cons.mp hnames
      have hvalue := Expr.readsAs_definition (Expr.readsAs_source hnames hnumbers)
      have htarget := ReadsAs.word name (spells_identifier_iff.mpr hname)
      have hreads := htarget.append_blank hvalue
      simpa [Statement.source, Statement.words] using hreads
  | print value =>
      have hclose := readsAs_semicolon.sign .rightParen fun _ => Bool.false_ne_true
      have hvalue := (Expr.readsAs_source hnames hnumbers).append_cons (by decide) hclose
      have hopen := hvalue.sign .leftParen fun _ => Bool.false_ne_true
      have hreads := (ReadsAs.word "print" .print).append_cons (by decide) hopen
      simpa [Statement.source, Statement.words] using hreads

theorem Program.readsAs_source {p : Program ν} (h : Program.Canonical Readable p) :
    ReadsAs (Program.source p).toList (Program.words p) := by
  induction p with
  | nil => exact .nil
  | cons s p ih =>
      obtain ⟨hs, hp⟩ := List.forall_mem_cons.mp h
      have hreads := (Statement.readsAs_source hs).append_lineEnd (ih hp)
      simpa [Program.source, Program.words] using hreads

/-! ## Derivations from words -/

theorem Expr.operand_of_words {e : Expr ν} (hleaf : e.isLeaf)
    (hnumbers : ∀ x ∈ e.numbers, Readable x) {tokens : List Token}
    (h : tokens.map Token.word = e.words) : ∃ token, tokens = [token] ∧ Operand e token := by
  cases e with
  | number x =>
      obtain ⟨token, rfl, hword⟩ := List.map_eq_singleton_iff.mp h
      obtain ⟨hkind, htext⟩ := Prod.mk.injEq .. ▸ hword
      refine ⟨token, rfl, .number hkind ?_⟩
      rw [htext]
      exact hnumbers x (List.mem_singleton_self x)
  | var name =>
      obtain ⟨token, rfl, hword⟩ := List.map_eq_singleton_iff.mp h
      obtain ⟨hkind, rfl⟩ := Prod.mk.injEq .. ▸ hword
      exact ⟨token, rfl, .var hkind⟩
  | binary => cases hleaf

/-- Tokens with the words of a left comb are a derivation of it.  Its right operands are
leaves, so the induction is for the left ones only. -/
theorem Expr.derives_of_words {e : Expr ν} (hcomb : e.LeftComb)
    (hnumbers : ∀ x ∈ e.numbers, Readable x) {tokens : List Token}
    (h : tokens.map Token.word = e.words) : e.Derives tokens := by
  induction e generalizing tokens with
  | number =>
      obtain ⟨token, rfl, hoperand⟩ := Expr.operand_of_words rfl hnumbers h
      exact .operand hoperand
  | var =>
      obtain ⟨token, rfl, hoperand⟩ := Expr.operand_of_words rfl hnumbers h
      exact .operand hoperand
  | binary op left right ihl _ =>
      obtain ⟨hcombl, hleaf⟩ := hcomb
      obtain ⟨hnumbersl, hnumbersr⟩ := List.forall_mem_append.mp hnumbers
      obtain ⟨used, _, rfl, hused, hend⟩ := List.map_eq_append_iff.mp h
      obtain ⟨sign, _, rfl, hsign, hright⟩ := List.map_eq_cons_iff.mp hend
      obtain ⟨token, rfl, hoperand⟩ := Expr.operand_of_words hleaf hnumbersr hright
      exact .binary (ihl hcombl hnumbersl hused) (congrArg Prod.fst hsign) hoperand

theorem Statement.derives_of_words {s : Statement ν} (h : s.Canonical Readable)
    {tokens : List Token} (hwords : tokens.map Token.word = s.words) : s.Derives tokens := by
  obtain ⟨-, hcomb, hnumbers⟩ := h
  cases s with
  | declare name value =>
      obtain ⟨new, _, rfl, hnew, hwords⟩ := List.map_eq_cons_iff.mp hwords
      obtain ⟨target, _, rfl, htarget, hwords⟩ := List.map_eq_cons_iff.mp hwords
      obtain ⟨equals, _, rfl, hequals, hwords⟩ := List.map_eq_cons_iff.mp hwords
      obtain ⟨used, _, rfl, hused, hend⟩ := List.map_eq_append_iff.mp hwords
      obtain ⟨semicolon, rfl, hsemicolon⟩ := List.map_eq_singleton_iff.mp hend
      obtain ⟨hkind, rfl⟩ := Prod.mk.injEq .. ▸ htarget
      exact .declare (congrArg Prod.fst hnew) hkind (congrArg Prod.fst hequals)
        (Expr.derives_of_words hcomb hnumbers hused) (congrArg Prod.fst hsemicolon)
  | assign name value =>
      obtain ⟨target, _, rfl, htarget, hwords⟩ := List.map_eq_cons_iff.mp hwords
      obtain ⟨equals, _, rfl, hequals, hwords⟩ := List.map_eq_cons_iff.mp hwords
      obtain ⟨used, _, rfl, hused, hend⟩ := List.map_eq_append_iff.mp hwords
      obtain ⟨semicolon, rfl, hsemicolon⟩ := List.map_eq_singleton_iff.mp hend
      obtain ⟨hkind, rfl⟩ := Prod.mk.injEq .. ▸ htarget
      exact .assign hkind (congrArg Prod.fst hequals)
        (Expr.derives_of_words hcomb hnumbers hused) (congrArg Prod.fst hsemicolon)
  | print value =>
      obtain ⟨print, _, rfl, hprint, hwords⟩ := List.map_eq_cons_iff.mp hwords
      obtain ⟨left, _, rfl, hleft, hwords⟩ := List.map_eq_cons_iff.mp hwords
      obtain ⟨used, _, rfl, hused, hend⟩ := List.map_eq_append_iff.mp hwords
      obtain ⟨right, _, rfl, hright, hend⟩ := List.map_eq_cons_iff.mp hend
      obtain ⟨semicolon, rfl, hsemicolon⟩ := List.map_eq_singleton_iff.mp hend
      exact .print (congrArg Prod.fst hprint) (congrArg Prod.fst hleft)
        (Expr.derives_of_words hcomb hnumbers hused) (congrArg Prod.fst hright)
        (congrArg Prod.fst hsemicolon)

theorem Program.derives_of_words {p : Program ν} (h : Program.Canonical Readable p)
    {tokens : List Token} (hwords : tokens.map Token.word = Program.words p) :
    Program.Derives p tokens := by
  induction p generalizing tokens with
  | nil =>
      cases List.map_eq_nil_iff.mp hwords
      exact .nil
  | cons s p ih =>
      obtain ⟨hs, hp⟩ := List.forall_mem_cons.mp h
      obtain ⟨used, rest, rfl, hused, hrest⟩ := List.map_eq_append_iff.mp hwords
      exact .cons (Statement.derives_of_words hs hused) (ih hp hrest)

/-! ## There and back -/

/-- A text with the words of a program whose numbers are read back is read as it. -/
theorem Program.ofSource_of_words {source : String} {p : Program ν}
    (h : Program.Canonical Readable p) (hwords : wordsOf source.toList = (Program.words p, [])) :
    Program.ofSource source = .ok p := by
  obtain ⟨tokens, htokens, hmap⟩ := exists_tokenize_iff.mpr hwords
  obtain ⟨used, _, rfl, hused, hend⟩ := List.map_eq_append_iff.mp hmap
  obtain ⟨marker, rfl, hmarker⟩ := List.map_eq_singleton_iff.mp hend
  refine Program.ofSource_eq_ok_iff.mpr ⟨_, htokens, Program.ofTokens_eq_ok_iff.mpr ?_⟩
  exact ⟨used, marker, [], rfl, Program.derives_of_words h hused, congrArg Prod.fst hmarker⟩

/-- A program whose numbers are read back is read back as a whole. -/
theorem Program.ofSource_of_readable {p : Program ν} (h : Program.Canonical Readable p) :
    Program.ofSource (Program.source p) = .ok p := by
  have hreads := Program.readsAs_source h [] nofun
  rw [List.append_nil, wordsOf_nil, List.append_nil] at hreads
  exact Program.ofSource_of_words h hreads

/-- A program that is read is canonical, with the numbers of literals. -/
theorem Program.canonical_of_ofSource {source : String} {p : Program ν}
    (h : Program.ofSource source = .ok p) :
    Program.Canonical (fun x => ∃ n : Nat, x = NumberSystem.ofNat n) p := by
  obtain ⟨tokens, htokens, hread⟩ := Program.ofSource_eq_ok_iff.mp h
  obtain ⟨used, marker, rest, rfl, hderives, -⟩ := Program.ofTokens_eq_ok_iff.mp hread
  intro s hs
  obtain ⟨written, hwritten, hstatement⟩ := hderives.exists_statement s hs
  obtain ⟨_, -, hvalue⟩ := hstatement.exists_value
  refine ⟨?_, hvalue.leftComb, hvalue.exists_literal⟩
  intro name hname
  obtain ⟨token, htoken, hkind, rfl⟩ := hstatement.exists_name name hname
  have hspells := spells_of_tokenize htokens (List.mem_append_left _ (hwritten htoken))
    (by simp [hkind])
  rw [hkind] at hspells
  exact spells_identifier_iff.mp hspells

end

/-! ## Natural doubles -/

/-- A double that is a whole number without a sign. -/
def Double.IsNatural (x : Double) : Prop := ∃ m, x = .finite false m ∧ m.IsWhole

theorem Double.IsNatural.readable {x : Double} (h : x.IsNatural) : Readable x := by
  obtain ⟨m, rfl, hwhole⟩ := h
  exact Double.literal?_text hwhole

/-- A canonical program with natural numbers is read back from its text, each number
to the bit.  What is read from any text is such a program, but for literals that are
too great and stand for the infinity. -/
theorem Program.ofSource_canonical :
    (∀ p : Program Double, Program.Canonical Double.IsNatural p →
      Program.ofSource (Program.source p) = .ok p) ∧
    ∀ (source : String) (p : Program Double), Program.ofSource source = .ok p →
      Program.Canonical (fun x => x.IsNatural ∨ x = .infinite false) p := by
  constructor
  · intro p h
    exact Program.ofSource_of_readable (h.imp fun _ => Double.IsNatural.readable)
  · intro source p h
    refine (Program.canonical_of_ofSource h).imp ?_
    rintro _ ⟨n, rfl⟩
    exact (Double.ofNat_cases n).symm

/-- A program with the greatest finite double. -/
def greatestProgram : Program Double :=
  [.declare "new_" (.number (.ofNat (17976931348623157 * tenPow 292))),
    .assign "_9" (.binary .sub (.binary .add (.var "new_") (.number (.ofNat 0))) (.var "printed")),
    .print (.var "_9")]

theorem Program.ofSource_greatestProgram :
    Program.Canonical Double.IsNatural greatestProgram ∧
      Program.ofSource (Program.source greatestProgram) = .ok greatestProgram ∧
      Program.Canonical (fun x : Double => x.IsNatural ∨ x = .infinite false)
        greatestProgram := by
  obtain ⟨hwrite, hread⟩ := Program.ofSource_canonical
  have hnatural : ∀ s ∈ greatestProgram, ∀ x ∈ s.value.numbers, x.IsNatural := by
    have hfinite : Double.ofNat (17976931348623157 * tenPow 292) ≠ .infinite false := by
      decide +kernel
    have hzero : Double.ofNat 0 ≠ .infinite false := by decide +kernel
    simp only [greatestProgram, List.forall_mem_cons, Statement.value, Expr.numbers]
    simp [Double.IsNatural, (Double.ofNat_cases _).resolve_left hfinite,
      (Double.ofNat_cases _).resolve_left hzero]
  have hnames : ∀ s ∈ greatestProgram, ∀ name ∈ s.names, IsVariable name := by
    have hnew : IsVariable "new_" :=
      ⟨isName_iff.mpr ⟨_, _, rfl, rfl, List.all_eq_true.mp rfl⟩, by decide⟩
    have hnine : IsVariable "_9" :=
      ⟨isName_iff.mpr ⟨_, _, rfl, rfl, List.all_eq_true.mp rfl⟩, by decide⟩
    have hprinted : IsVariable "printed" :=
      ⟨isName_iff.mpr ⟨_, _, rfl, rfl, List.all_eq_true.mp rfl⟩, by decide⟩
    simp [greatestProgram, Statement.names, Expr.names, hnew, hnine, hprinted]
  have hcomb : ∀ s ∈ greatestProgram, s.value.LeftComb := by
    simp [greatestProgram, Statement.value, Expr.LeftComb, Expr.isLeaf]
  have hcanonical : Program.Canonical Double.IsNatural greatestProgram :=
    fun s hs => ⟨hnames s hs, hcomb s hs, hnatural s hs⟩
  have hback := hwrite greatestProgram hcanonical
  exact ⟨hcanonical, hback, hread _ _ hback⟩

end SumScript
