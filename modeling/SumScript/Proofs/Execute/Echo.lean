import SumScript.Proofs.Execute.Integral
import SumScript.Proofs.Execute.Joined

/-!
# Printed numbers can be read

A finite number that a text prints can stand in a text again.  Without a sign its line is
a literal of the very same double (`Double.literal?_text`), although its digits are those
of a shorter decimal and above 2 to the power 53 seldom its own.  A sign is no part of a
literal, but zero minus the number without the sign is the number
(`Double.zero_sub`).

So a line can be *echoed*: a text goes on with a statement that prints the line's number,
and it prints the line once more.
-/

namespace SumScript

/-- The values that a text prints are integral. -/
theorem integral_of_mem_valuesPrinted {source : String} {p : Program Double}
    (hp : Program.ofSource source = .ok p) {value : Double}
    (h : value ∈ Context.empty.valuesPrinted p) : value.Integral := by
  have hnumbers : ∀ s ∈ p, ∀ x ∈ s.value.numbers, x.Integral := by
    intro s hs x hx
    obtain ⟨n, rfl⟩ := (Program.canonical_of_ofSource hp s hs).numbers x hx
    exact Double.integral_ofNat n
  obtain ⟨-, hmet⟩ := Context.All.empty.run closed_integral hnumbers
  exact hmet value (Context.mem_valuesMet_of_printed h)

/-! ## Numbers with a sign -/

theorem Double.ofNat_zero : Double.ofNat 0 = .finite false .zero := by
  refine Double.nearest_eq ?_ false
  rw [Nat.zero_mul]
  exact roundQuanta_of_representable representable_zero

/-- A difference with zero on the left needs no rounding. -/
theorem Double.zero_sub {m : Magnitude} (h : m.quanta ≠ 0) :
    (Double.ofNat 0).sub (.finite false m) = .finite true m := by
  have hsum : Double.signed false .zero + Double.signed true m = -(m.quanta : Int) :=
    Int.zero_add _
  rw [Double.ofNat_zero, Double.sub, Double.neg, Double.add, Bool.not_false, hsum,
    Double.ofQuanta, if_neg (by omega), Int.natAbs_neg, Int.natAbs_natCast,
    decide_eq_true (by omega)]
  exact Double.nearest_eq (roundQuanta_of_representable m.representable) true

theorem Double.text_negative {m : Magnitude} (h : m.quanta ≠ 0) :
    (Double.finite true m).text = "-" ++ (Double.finite false m).text := by
  have htext : ∀ negative, (Double.finite negative m).text =
      .ofList (signMark negative ++ NumberStyle.printed.write (.shortest m.quanta)) := by
    intro negative
    rw [Double.text, Double.write, if_neg h]
  have hsign : String.ofList (signMark true) = "-" := rfl
  have hnone : signMark false = [] := rfl
  rw [htext, htext, String.ofList_append, hsign, hnone, List.nil_append]

/-- An integral double that is finite has no sign, or it is not zero. -/
theorem Double.Integral.finite_cases {negative : Bool} {m : Magnitude}
    (h : (Double.finite negative m).Integral) :
    negative = false ∨ negative = true ∧ m.quanta ≠ 0 := by
  cases negative with
  | false => exact Or.inl rfl
  | true =>
      refine Or.inr ⟨rfl, fun hzero => h.unsigned ?_⟩
      exact congrArg (Double.finite true) (Magnitude.eq_of_quanta hzero)

/-! ## Echoes -/

/-- The expression that denotes a double: zero minus its magnitude if it has a sign,
or else the number itself. -/
def Double.denoted : Double → Expr Double
  | .finite true m => .binary .sub (.number (.ofNat 0)) (.number (.finite false m))
  | x => .number x

/-- The statement that prints the number of a line. -/
def echo (line : String) : String :=
  match line.toList with
  | '-' :: digits => "print(0 - " ++ .ofList digits ++ ");"
  | _ => "print(" ++ line ++ ");"

theorem echo_negative (digits : String) :
    echo ("-" ++ digits) = "print(0 - " ++ digits ++ ");" := by
  have hline : ("-" ++ digits).toList = '-' :: digits.toList := String.toList_append
  simp only [echo, hline, String.ofList_toList]

theorem echo_of_isNumeral {line : String} (h : IsNumeral line.toList) :
    echo line = "print(" ++ line ++ ");" := by
  unfold echo
  split
  next digits heq =>
    have hdigit := h.2 '-' (heq ▸ List.mem_cons_self)
    cases hdigit
  next => rfl

theorem Readable.isNumeral {x : Double} (h : Readable x) : IsNumeral x.text.toList := by
  cases h.spells with
  | number hnumeral => exact hnumeral

section

variable {negative : Bool} {m : Magnitude} (h : (Double.finite negative m).Integral)

include h

theorem Double.Integral.readable : Readable (Double.finite false m) :=
  Double.literal?_text h.whole

theorem Double.readable_of_mem_denoted :
    ∀ x ∈ (Double.finite negative m).denoted.numbers, Readable x := by
  rcases h.finite_cases with rfl | ⟨rfl, -⟩
  · exact List.forall_mem_singleton.mpr h.readable
  · have hzero : Readable (Double.ofNat 0) := by
      rw [Double.ofNat_zero]
      exact Double.literal?_text (Nat.dvd_zero _)
    exact List.forall_mem_cons.mpr ⟨hzero, List.forall_mem_singleton.mpr h.readable⟩

theorem Double.canonical_print_denoted :
    (Statement.print (Double.finite negative m).denoted).Canonical Readable where
  names := by
    rcases h.finite_cases with rfl | ⟨rfl, -⟩ <;> exact List.forall_mem_nil _
  leftComb := by
    rcases h.finite_cases with rfl | ⟨rfl, -⟩
    · trivial
    · exact ⟨trivial, rfl⟩
  numbers := Double.readable_of_mem_denoted h

theorem Double.echo_text :
    echo (Double.finite negative m).text =
      (Statement.print (Double.finite negative m).denoted).source := by
  rcases h.finite_cases with rfl | ⟨rfl, hne⟩
  · exact echo_of_isNumeral h.readable.isNumeral
  · rw [Double.text_negative hne, echo_negative]
    have hzero : NumberSystem.text (Double.ofNat 0) = "0" := by
      rw [Double.ofNat_zero]
      rfl
    rw [Statement.source, Double.denoted, Expr.source, Expr.source, Expr.source, hzero]
    apply String.toList_inj.mp
    simp [Operator.symbol, NumberSystem.text]

theorem Env.eval_denoted (env : Env Double) :
    env.eval (Double.finite negative m).denoted = .ok (.finite negative m) := by
  rcases h.finite_cases with rfl | ⟨rfl, hne⟩
  · rfl
  · exact congrArg Except.ok (Double.zero_sub hne)

/-- The echo of a line is read as the statement that prints its number. -/
theorem Program.ofSource_echo :
    Program.ofSource (echo (Double.finite negative m).text) =
      .ok [.print (Double.finite negative m).denoted] := by
  have hcanonical := Double.canonical_print_denoted h
  have hreads := Statement.readsAs_source hcanonical [] nofun
  rw [List.append_nil, wordsOf_nil, List.append_nil] at hreads
  rw [Double.echo_text h]
  refine Program.ofSource_of_words (List.forall_mem_singleton.mpr hcanonical) ?_
  rw [hreads, Program.words, List.flatMap_singleton]

theorem Context.run_denoted (ctx : Context Double) :
    ctx.run [.print (Double.finite negative m).denoted] =
      ({ ctx with printed := (Double.finite negative m).text :: ctx.printed }, .ok ()) := by
  have hexec := Context.exec_of_ok (s := .print (Double.finite negative m).denoted)
    (Env.eval_denoted h ctx.env)
  rw [Context.run, hexec]
  rfl

/-- Without a sign, a line is a literal.  A negative zero would be no less than zero, but no
text computes one. -/
theorem Double.Integral.literal_text (hsign : 0 ≤ Double.signed negative m) :
    (∃ tokens, tokenize (Double.finite negative m).text = .ok tokens ∧
        tokens.map Token.word =
          [(.number, (Double.finite negative m).text), (.endOfInput, "")]) ∧
      literal? Double (Double.finite negative m).text = some (.finite negative m) := by
  rcases h.finite_cases with rfl | ⟨rfl, hne⟩
  · have hword := ReadsAs.word _ h.readable.spells [] nofun
    rw [List.append_nil, wordsOf_nil, List.append_nil] at hword
    exact ⟨exists_tokenize_iff.mpr hword, h.readable⟩
  · rw [Double.signed, if_pos rfl] at hsign
    omega

/-- With a sign, a line is the sign and digits, and zero minus these digits is the
number. -/
theorem Double.Integral.negative_text (hsign : Double.signed negative m < 0) :
    ∃ digits : String, (Double.finite negative m).text = "-" ++ digits ∧
      IsNumeral digits.toList ∧
      ∃ e, Program.ofSource ("print(0 - " ++ digits ++ ");") = .ok [.print e] ∧
        ∀ env : Env Double, env.eval e = .ok (.finite negative m) := by
  have hparsed := Program.ofSource_echo h
  have heval := Env.eval_denoted h
  rcases h.finite_cases with rfl | ⟨rfl, hne⟩
  · exact absurd hsign (Int.not_lt.mpr (Int.natCast_nonneg _))
  · have htext := Double.text_negative hne
    rw [htext, echo_negative] at hparsed
    exact ⟨_, htext, h.readable.isNumeral, _, hparsed, heval⟩

end

/-- A line that is the text of neither infinity nor what is not a number is the text of
a finite number. -/
theorem Double.exists_finite {x : Double} (hinf : x.text ≠ "inf") (hneg : x.text ≠ "-inf")
    (hnan : x.text ≠ "NaN") : ∃ negative m, x = .finite negative m := by
  cases x with
  | nan => exact absurd rfl hnan
  | infinite negative =>
      cases negative with
      | true => exact absurd rfl hneg
      | false => exact absurd rfl hinf
  | finite negative m => exact ⟨negative, m, rfl⟩

/-! ## Texts -/

/-- Printed numbers can be read.  The lines of a text are its printed values.  Of those
that are finite, a line without a sign is one literal, of the same double to the bit, and
a line with a sign is that of zero minus the digits after it.  So any line of a finite
number can be echoed: the text that goes on with its echo succeeds as well, and has the
line once more. -/
theorem execute_echo {source : String} {p : Program Double}
    (hp : Program.ofSource source = .ok p) :
    (execute source).lines = (Context.empty.valuesPrinted p).map Double.text ∧
      (∀ negative m, Double.finite negative m ∈ Context.empty.valuesPrinted p →
        (0 ≤ Double.signed negative m →
          (∃ tokens, tokenize (Double.finite negative m).text = .ok tokens ∧
            tokens.map Token.word =
              [(.number, (Double.finite negative m).text), (.endOfInput, "")]) ∧
          literal? Double (Double.finite negative m).text = some (.finite negative m)) ∧
        (Double.signed negative m < 0 →
          ∃ digits : String, (Double.finite negative m).text = "-" ++ digits ∧
            IsNumeral digits.toList ∧
            ∃ e, Program.ofSource ("print(0 - " ++ digits ++ ");") = .ok [.print e] ∧
              ∀ env : Env Double, env.eval e = .ok (.finite negative m))) ∧
      ((execute source).result = .ok () →
        ∀ line ∈ (execute source).lines, line ≠ "inf" → line ≠ "-inf" → line ≠ "NaN" →
          execute (source ++ "\n" ++ echo line) =
            ⟨(execute source).lines ++ [line], .ok ()⟩) := by
  have hlines : (execute source).lines =
      (Context.empty.valuesPrinted p).map Double.text := by
    rw [execute_of_ofSource hp]
    exact Context.lines_run .empty p
  refine ⟨hlines, ?_, ?_⟩
  · intro negative m hvalue
    have hintegral := integral_of_mem_valuesPrinted hp hvalue
    exact ⟨hintegral.literal_text, hintegral.negative_text⟩
  · intro hresult line hline hinf hneg hnan
    rw [hlines] at hline
    obtain ⟨value, hvalue, rfl⟩ := List.mem_map.mp hline
    obtain ⟨negative, m, rfl⟩ := Double.exists_finite hinf hneg hnan
    have hintegral := integral_of_mem_valuesPrinted hp hvalue
    have hok : (Context.empty.run p).2 = .ok () := by
      rw [execute_of_ofSource hp] at hresult
      cases hrun : (Context.empty.run p).2 with
      | ok => rfl
      | error e =>
          simp only [hrun] at hresult
          cases hresult
    have hjoined := Program.ofSource_joined hp (Program.ofSource_echo hintegral)
    rw [execute_of_ofSource hjoined, execute_of_ofSource hp, Context.run_append hok,
      Context.run_denoted hintegral]
    exact congrArg (Outcome.mk · _) List.reverse_cons

/-- A text that prints 2 to the power 60, which its line does not show to the last digit,
and a rounded number with a sign. -/
def greatSource : String := "new a=1152921504606846976;print(a);print(3-a);"

/-- The program of the text. -/
def greatProgram : Program Double :=
  [.declare "a" (.number (.ofNat 1152921504606846976)), .print (.var "a"),
    .print (.binary .sub (.number (.ofNat 3)) (.var "a"))]

theorem execute_greatSource :
    Program.ofSource greatSource = .ok greatProgram ∧
      (execute greatSource).lines = ["1152921504606847000", "-1152921504606847000"] ∧
      literal? Double "1152921504606847000" = some (.ofNat 1152921504606846976) ∧
      execute (greatSource ++ "\n" ++ "print(1152921504606847000);") =
        ⟨["1152921504606847000", "-1152921504606847000", "1152921504606847000"], .ok ()⟩ ∧
      execute (greatSource ++ "\n" ++ "print(0 - 1152921504606847000);") =
        ⟨["1152921504606847000", "-1152921504606847000", "-1152921504606847000"], .ok ()⟩ := by
  have hp : Program.ofSource greatSource = .ok greatProgram := by decide +kernel
  have hlines : (execute greatSource).lines =
      ["1152921504606847000", "-1152921504606847000"] := by
    decide +kernel
  have hresult : (execute greatSource).result = .ok () := by decide +kernel
  have htext : (Double.ofNat 1152921504606846976).text = "1152921504606847000" := by
    decide +kernel
  have hprinted : Double.ofNat 1152921504606846976 ∈
      Context.empty.valuesPrinted greatProgram := by
    decide +kernel
  have hfinite : Double.ofNat 1152921504606846976 ≠ .infinite false := by decide +kernel
  obtain ⟨m, hm, -⟩ := (Double.ofNat_cases _).resolve_left hfinite
  obtain ⟨-, hread, hecho⟩ := execute_echo hp
  rw [hlines] at hecho
  refine ⟨hp, hlines, ?_, ?_, ?_⟩
  · rw [hm] at hprinted htext
    obtain ⟨hliteral, -⟩ := hread false m hprinted
    have hnumber := (hliteral (Int.natCast_nonneg _)).2
    rwa [htext, ← hm] at hnumber
  · exact hecho hresult "1152921504606847000" (by decide) (by decide) (by decide) (by decide)
  · exact hecho hresult "-1152921504606847000" (by decide) (by decide) (by decide) (by decide)

end SumScript
