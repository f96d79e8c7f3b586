import Mathlib.Data.List.DropRight
import SumScript.Error

/-!
# Messages tell errors apart

A message quotes texts and names as they stand.  A quoted text may hold quotes, or the
very words that messages end with.  Still no two errors have the same message.

A message opens with the words of its *topic* and goes on with its *details*
(`Error.message_eq`).  No opening is the beginning of another one, so the topic can be
told before anything is quoted (`Topic.eq_of_opening`).  The details are read from their
end.  The digits at the end of a text reach back to its last blank, and so they are the
number that it ends with (`append_number_inj`).  So a place can be taken off the end,
number by number (`Position.append_message_inj`), and what is left is the text that is
quoted.  Errors of a run have no place.  Their details end in words that tell the two
kinds of them apart.
-/

namespace SumScript

/-! ## Topics -/

/-- What the first words of a message tell about an error. -/
inductive Topic where
  /-- A character that starts no token. -/
  | character
  /-- A token out of place. -/
  | token
  /-- A token that stands where only another kind can. -/
  | expected (kind : TokenKind)
  /-- The tokens are used up. -/
  | ending
  /-- The use of a variable. -/
  | name

/-- The words that a message on the topic begins with. -/
def Topic.opening : Topic → String
  | .character => "Unexpected character '"
  | .token => "Unexpected token '"
  | .expected kind => "Expected " ++ kind.name ++ " but got '"
  | .ending => "Unexpected end of input"
  | .name => "Variable '"

/-- The topic of an error. -/
def Error.topic : Error → Topic
  | .lex _ => .character
  | .parse (.unexpected _ _) => .token
  | .parse (.expected kind _ _) => .expected kind
  | .parse .endOfTokens => .ending
  | .runtime _ => .name

/-- What a message says after the words of its topic. -/
def Error.details : Error → String
  | .lex e => e.character.toString ++ "'" ++ e.position.message
  | .parse (.unexpected found position) => found ++ "'" ++ position.message
  | .parse (.expected _ found position) => found ++ "'" ++ position.message
  | .parse .endOfTokens => ""
  | .runtime (.redeclared name) => name ++ "' is already declared"
  | .runtime (.undeclared name) => name ++ "' is not declared"

theorem Error.message_eq (e : Error) : e.message = e.topic.opening ++ e.details := by
  have hquoted (opening text close place : String) :
      opening ++ text ++ close ++ place = opening ++ (text ++ close ++ place) := by
    simp only [String.append_assoc]
  cases e with
  | lex e => exact hquoted _ _ _ _
  | parse e =>
      cases e with
      | unexpected found position => exact hquoted _ _ _ _
      | expected kind found position => exact hquoted _ _ _ _
      | endOfTokens => exact String.append_empty.symm
  | runtime e =>
      cases e with
      | redeclared name => exact String.append_assoc
      | undeclared name => exact String.append_assoc

theorem TokenKind.eq_of_name {kind kind' : TokenKind} {rest rest' : List Char}
    (h : kind.name.toList ++ ' ' :: rest = kind'.name.toList ++ ' ' :: rest') : kind = kind' := by
  cases kind <;> cases kind' <;> simp [TokenKind.name] at h ⊢

/-- Openings part from each other before one of them ends. -/
theorem Topic.eq_of_opening {topic topic' : Topic} {rest rest' : String}
    (h : topic.opening ++ rest = topic'.opening ++ rest') : topic = topic' := by
  have htext := congrArg String.toList h
  cases topic with
  | expected kind =>
      cases topic' with
      | expected kind' =>
          simp only [Topic.opening, String.toList_append, List.append_assoc] at htext
          rw [TokenKind.eq_of_name (List.append_cancel_left htext)]
      | _ => simp [Topic.opening] at htext
  | _ => cases topic' <;> simp [Topic.opening] at htext ⊢

/-! ## Places at the end -/

/-- The digits after the last blank of a text are the number that it ends with. -/
theorem rtakeWhile_append_number (text : String) (n : Nat) :
    (text ++ " " ++ toString n).toList.rtakeWhile Char.isDigit = Nat.toDigits 10 n := by
  have hdigits : ∀ c ∈ (Nat.toDigits 10 n).reverse, c.isDigit := by
    intro c hc
    exact Nat.isDigit_of_mem_toDigits (by decide) (by decide) (List.mem_reverse.mp hc)
  simp [List.rtakeWhile, List.takeWhile_append_of_pos hdigits]

/-- A text and the number after it can be told apart.  The numbers are read off first, since
only then it is known where the texts end. -/
theorem append_number_inj {text text' : String} {m n : Nat}
    (h : text ++ " " ++ toString m = text' ++ " " ++ toString n) : text = text' ∧ m = n := by
  have hnumber : m = n := by
    have hdigits := rtakeWhile_append_number text m
    rw [h, rtakeWhile_append_number] at hdigits
    rw [← Nat.ofDigitChars_ten_toDigits (n := m), ← hdigits, Nat.ofDigitChars_ten_toDigits]
  subst hnumber
  simpa [String.append_left_inj] using h

theorem Position.append_message (text : String) (p : Position) : text ++ p.message =
    text ++ " at line" ++ " " ++ toString p.line ++ ", column" ++ " " ++ toString p.column := by
  have hline : " at line " = " at line" ++ " " := by decide
  have hcolumn : ", column " = ", column" ++ " " := by decide
  simp only [Position.message, hline, hcolumn, String.append_assoc]

/-- The place that a message ends with can be taken off. -/
theorem Position.append_message_inj {text text' : String} {p p' : Position}
    (h : text ++ p.message = text' ++ p'.message) : text = text' ∧ p = p' := by
  obtain ⟨line, column⟩ := p
  obtain ⟨line', column'⟩ := p'
  rw [Position.append_message, Position.append_message] at h
  obtain ⟨hbefore, rfl⟩ := append_number_inj h
  obtain ⟨hlead, rfl⟩ := append_number_inj ((String.append_left_inj _).mp hbefore)
  exact ⟨(String.append_left_inj _).mp hlead, rfl⟩

/-- The text that is quoted before a place can be read off, quotes inside it or not. -/
theorem quoted_inj {text text' : String} {p p' : Position}
    (h : text ++ "'" ++ p.message = text' ++ "'" ++ p'.message) : text = text' ∧ p = p' := by
  obtain ⟨hquoted, rfl⟩ := Position.append_message_inj h
  exact ⟨(String.append_left_inj _).mp hquoted, rfl⟩

/-! ## Errors -/

theorem LexError.eq_of_details {e e' : LexError}
    (h : (Error.lex e).details = (Error.lex e').details) : e = e' := by
  obtain ⟨c, p⟩ := e
  obtain ⟨c', p'⟩ := e'
  obtain ⟨hcharacter, hplace⟩ := quoted_inj h
  obtain rfl : c = c' := String.singleton_inj.mp hcharacter
  obtain rfl : p = p' := hplace
  rfl

theorem ParseError.eq_of_details {e e' : ParseError}
    (htopic : (Error.parse e).topic = (Error.parse e').topic)
    (h : (Error.parse e).details = (Error.parse e').details) : e = e' := by
  cases e with
  | unexpected found p =>
      cases e' with
      | unexpected found' p' =>
          obtain ⟨rfl, rfl⟩ := quoted_inj h
          rfl
      | expected | endOfTokens => cases htopic
  | expected kind found p =>
      cases e' with
      | expected kind' found' p' =>
          obtain rfl := Topic.expected.inj htopic
          obtain ⟨rfl, rfl⟩ := quoted_inj h
          rfl
      | unexpected | endOfTokens => cases htopic
  | endOfTokens =>
      cases e' with
      | endOfTokens => rfl
      | unexpected | expected => cases htopic

/-- The two errors differ in the words before the last one, which end in different
letters. -/
theorem RuntimeError.eq_of_details {e e' : RuntimeError}
    (h : (Error.runtime e).details = (Error.runtime e').details) : e = e' := by
  have hne (name name' : String) :
      name ++ "' is already declared" ≠ name' ++ "' is not declared" := by
    intro hdetails
    have hend := congrArg (fun text => text.toList.reverse) hdetails
    simp at hend
  cases e with
  | redeclared name =>
      cases e' with
      | redeclared name' => rw [(String.append_left_inj _).mp h]
      | undeclared name' => exact absurd h (hne name name')
  | undeclared name =>
      cases e' with
      | redeclared name' => exact absurd h.symm (hne name' name)
      | undeclared name' => rw [(String.append_left_inj _).mp h]

/-- Errors on one topic differ in their details. -/
theorem Error.eq_of_details {e e' : Error} (htopic : e.topic = e'.topic)
    (h : e.details = e'.details) : e = e' := by
  cases e with
  | lex e =>
      cases e' with
      | lex e' => rw [LexError.eq_of_details h]
      | parse e' => cases e' <;> cases htopic
      | runtime => cases htopic
  | parse e =>
      cases e' with
      | lex => cases e <;> cases htopic
      | parse e' => rw [ParseError.eq_of_details htopic h]
      | runtime => cases e <;> cases htopic
  | runtime e =>
      cases e' with
      | lex => cases htopic
      | parse e' => cases e' <;> cases htopic
      | runtime e' => rw [RuntimeError.eq_of_details h]

/-- Errors with the same message are the same. -/
theorem Error.message_eq_iff (e e' : Error) : e.message = e'.message ↔ e = e' := by
  refine ⟨fun h => ?_, congrArg Error.message⟩
  rw [e.message_eq, e'.message_eq] at h
  have htopic := Topic.eq_of_opening h
  rw [htopic] at h
  exact Error.eq_of_details htopic ((String.append_right_inj _).mp h)

/-- A quoted text may look like the end of a message. -/
example : (Error.parse (.unexpected "x' at line 1, column 2" ⟨3, 4⟩)).message =
    "Unexpected token 'x' at line 1, column 2' at line 3, column 4" := by decide +kernel

end SumScript
