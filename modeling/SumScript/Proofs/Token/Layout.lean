import Mathlib.Data.List.TakeWhile
import SumScript.Proofs.Token.Pieces

/-!
# The layout of a text

A text that can be read is its *words* in order, with *trivia* around them:
blanks, line ends and comments.  `Written lead words text` says so.  It knows
nothing of pieces or of reaching as far as possible.  The words are spelled as
their kinds ask (`Spells`), the gaps are trivia, and two words that would read
as one have a gap between them (`Joins`).  The lead is the gap before the first
word.

Reading inverts writing: a text is read as a list of words exactly if it can be
written from them (`wordsOf_eq_iff`).  What that needs of layouts is to know where
a word ends.  It does so exactly if the character after it does not extend it
(`Written.not_extendsBy_iff`).
-/

namespace SumScript

/-! ## Words -/

/-- A run of digits that is not empty. -/
def IsNumeral (word : List Char) : Prop := word ≠ [] ∧ ∀ c ∈ word, c.isDigit

/-- A letter or underscore, and after it letters, digits and underscores. -/
def IsName (word : List Char) : Prop :=
  ∃ c cs, word = c :: cs ∧ (c.isAlpha ∨ c = '_') ∧ ∀ d ∈ cs, d.isAlphanum ∨ d = '_'

theorem isName_iff {word : List Char} :
    IsName word ↔ ∃ c cs, word = c :: cs ∧ isWordStart c ∧ ∀ d ∈ cs, isWordPart d := by
  simp only [IsName, isWordStart, isWordPart, Bool.or_eq_true, beq_iff_eq]

/-- `Spells kind word`: the word is a token of the kind. -/
inductive Spells : TokenKind → List Char → Prop where
  | number {word : List Char} : IsNumeral word → Spells .number word
  | new : Spells .new ['n', 'e', 'w']
  | print : Spells .print ['p', 'r', 'i', 'n', 't']
  | identifier {word : List Char} : IsName word → word ≠ ['n', 'e', 'w'] →
      word ≠ ['p', 'r', 'i', 'n', 't'] → Spells .identifier word
  | equals : Spells .equals ['=']
  | plus : Spells .plus ['+']
  | minus : Spells .minus ['-']
  | semicolon : Spells .semicolon [';']
  | leftParen : Spells .leftParen ['(']
  | rightParen : Spells .rightParen [')']

/-- Whether tokens of the kind are words of letters. -/
def TokenKind.isName : TokenKind → Bool
  | .identifier => true
  | .new => true
  | .print => true
  | _ => false

/-- Two words of these kinds read as one, or as two others, if nothing stands
between them. -/
def Joins (first second : TokenKind) : Prop :=
  (first.isName ∧ (second.isName ∨ second = .number)) ∨ (first = .number ∧ second = .number)

/-! ## Trivia -/

/-- Blanks, line ends, and comments with the end of their line. -/
inductive Trivia : List Char → Prop where
  | nil : Trivia []
  | blank {c : Char} {gap : List Char} : c = ' ' ∨ c = '\t' ∨ c = '\r' → Trivia gap →
      Trivia (c :: gap)
  | lineEnd {gap : List Char} : Trivia gap → Trivia ('\n' :: gap)
  | comment {line gap : List Char} : '\n' ∉ line → Trivia gap →
      Trivia ('/' :: '/' :: (line ++ '\n' :: gap))

/-- Trivia at the end of a text, where a comment may lack the end of its line. -/
inductive FinalTrivia : List Char → Prop where
  | closed {gap : List Char} : Trivia gap → FinalTrivia gap
  | comment {gap line : List Char} : Trivia gap → '\n' ∉ line →
      FinalTrivia (gap ++ '/' :: '/' :: line)

theorem Trivia.append {first second : List Char} (h : Trivia first) (h' : Trivia second) :
    Trivia (first ++ second) := by
  induction h with
  | nil => exact h'
  | blank hc _ ih => exact .blank hc ih
  | lineEnd _ ih => exact .lineEnd ih
  | comment hline _ ih =>
      simp only [List.cons_append, List.append_assoc]
      exact .comment hline ih

theorem FinalTrivia.prepend {first second : List Char} (h : Trivia first)
    (h' : FinalTrivia second) : FinalTrivia (first ++ second) := by
  cases h' with
  | closed hgap => exact .closed (h.append hgap)
  | comment hgap hline =>
      rw [← List.append_assoc]
      exact .comment (h.append hgap) hline

/-- No character of a word stands at the front of trivia. -/
theorem Trivia.not_isWordPart_head {gap rest : List Char} (h : Trivia gap)
    (hrest : ∀ c ∈ rest.head?, ¬ isWordPart c) : ∀ c ∈ (gap ++ rest).head?, ¬ isWordPart c := by
  intro c hc
  cases h with
  | nil => exact hrest c hc
  | blank hblank =>
      cases hc
      exact not_isWordPart_of_isBlank (isBlank_iff.mpr hblank)
  | lineEnd => cases hc; decide
  | comment => cases hc; decide

theorem FinalTrivia.not_isWordPart_head {gap : List Char} (h : FinalTrivia gap) :
    ∀ c ∈ gap.head?, ¬ isWordPart c := by
  cases h with
  | closed hgap =>
      rw [← List.append_nil gap]
      exact hgap.not_isWordPart_head (by simp)
  | comment hgap _ =>
      refine hgap.not_isWordPart_head ?_
      intro c hc
      cases hc
      decide

/-! ## Texts -/

/-- `Written lead words text`: the text is the lead and then the words, each with
a gap after it.  Only the last gap may end within a comment. -/
inductive Written : List Char → List (TokenKind × String) → List Char → Prop where
  | nil {gap : List Char} : FinalTrivia gap → Written gap [] gap
  | cons {gap next text : List Char} {kind : TokenKind} {word : String}
      {words : List (TokenKind × String)} :
      Trivia gap → Spells kind word.toList → Written next words text →
      (∀ second ∈ words.head?, Joins kind second.1 → next ≠ []) →
      Written gap ((kind, word) :: words) (gap ++ (word.toList ++ text))

theorem Written.prepend {gap lead text : List Char} {words : List (TokenKind × String)}
    (hgap : Trivia gap) (h : Written lead words text) :
    Written (gap ++ lead) words (gap ++ text) := by
  cases h with
  | nil hlead => exact .nil (hlead.prepend hgap)
  | cons hlead hspells hrest hjoins =>
      rw [← List.append_assoc gap]
      exact .cons (hgap.append hlead) hspells hrest hjoins

theorem Written.spells {lead text : List Char} {words : List (TokenKind × String)}
    (h : Written lead words text) : ∀ word ∈ words, Spells word.1 word.2.toList := by
  induction h with
  | nil => simp
  | cons _ hspells _ _ ih =>
      intro word hword
      rcases List.mem_cons.mp hword with rfl | hword
      · exact hspells
      · exact ih word hword

/-! ## Where a word ends -/

/-- The characters that make a token of the kind longer. -/
def TokenKind.extendsBy : TokenKind → Char → Bool
  | .number, c => c.isDigit
  | .identifier, c => isWordPart c
  | .new, c => isWordPart c
  | .print, c => isWordPart c
  | _, _ => false

theorem TokenKind.isWordPart_of_extendsBy {kind : TokenKind} {c : Char}
    (h : kind.extendsBy c) : isWordPart c := by
  cases kind with
  | number => exact isWordPart_of_isDigit h
  | identifier | new | print => exact h
  | equals | plus | minus | semicolon | leftParen | rightParen | endOfInput => cases h

/-- The first character of a word tells digits, names and signs apart. -/
theorem Spells.exists_cons {kind : TokenKind} {word : List Char} (h : Spells kind word) :
    ∃ c cs, word = c :: cs ∧ (c.isDigit ↔ kind = .number) ∧
      (isWordPart c ↔ kind.isName ∨ kind = .number) := by
  cases h with
  | number hword =>
      obtain ⟨hne, hdigits⟩ := hword
      obtain ⟨c, cs, rfl⟩ := List.exists_cons_of_ne_nil hne
      have hc : c.isDigit := hdigits c List.mem_cons_self
      exact ⟨c, cs, rfl, by simp [hc], by simp [isWordPart_of_isDigit hc]⟩
  | identifier hword _ _ =>
      obtain ⟨c, cs, rfl, hstart, _⟩ := isName_iff.mp hword
      exact ⟨c, cs, rfl, by simp [not_isDigit_of_isWordStart hstart],
        by simp [isWordPart_of_isWordStart hstart, TokenKind.isName]⟩
  | new | print => exact ⟨_, _, rfl, by decide, by decide⟩
  | equals | plus | minus | semicolon | leftParen | rightParen =>
      exact ⟨_, _, rfl, by decide, by decide⟩

/-- Two words join exactly if the second one begins with a character that makes
the first one longer. -/
theorem Spells.joins_iff {first second : TokenKind} {c : Char} {cs : List Char}
    (h : Spells second (c :: cs)) : Joins first second ↔ first.extendsBy c := by
  obtain ⟨_, _, heq, hdigit, hpart⟩ := h.exists_cons
  cases heq
  cases first with
  | number => simp [Joins, TokenKind.isName, TokenKind.extendsBy, hdigit]
  | identifier | new | print => simp [Joins, TokenKind.isName, TokenKind.extendsBy, hpart]
  | equals | plus | minus | semicolon | leftParen | rightParen | endOfInput =>
      simp [Joins, TokenKind.isName, TokenKind.extendsBy]

/-- A written text can follow a word exactly if its lead keeps the two apart. -/
theorem Written.not_extendsBy_iff {lead text : List Char} {words : List (TokenKind × String)}
    (h : Written lead words text) (kind : TokenKind) :
    (∀ c ∈ text.head?, ¬ kind.extendsBy c) ↔
      ∀ second ∈ words.head?, Joins kind second.1 → lead ≠ [] := by
  have notPart : ∀ {text : List Char}, (∀ c ∈ text.head?, ¬ isWordPart c) →
      ∀ c ∈ text.head?, ¬ kind.extendsBy c :=
    fun hpart c hc hextends => hpart c hc (kind.isWordPart_of_extendsBy hextends)
  cases h with
  | nil hgap => simpa using notPart hgap.not_isWordPart_head
  | @cons _ next text second word words hgap hspells hrest hjoins =>
      cases lead with
      | nil =>
          obtain ⟨c, cs, hword, _⟩ := hspells.exists_cons
          rw [hword] at hspells ⊢
          simp [hspells.joins_iff]
      | cons d lead =>
          have hhead : ∀ c ∈ ((d :: lead) ++ []).head?, ¬ isWordPart c :=
            hgap.not_isWordPart_head (by simp)
          simpa using notPart hhead

end SumScript
