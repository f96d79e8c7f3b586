import SumScript.NumberSystem
import SumScript.Proofs.Double.Rounding

/-!
# What the shortest decimal says

The search for the shortest decimal ends at the first grid with a reading, and a
reading is a number that reads back (`exists_searchGrids`).  A whole number is a
reading of itself on the grid of whole numbers, so its shortest decimal is whole
as well (`Decimal.shortest_whole`).  It is written as digits and zeros without a
point, and as a literal this writing denotes the number again
(`Double.literal?_text`).

Up to 2 to the power 53 no two natural numbers round to the same double, but for
the last of them and its successor (`eq_or_eq_of_roundQuanta`).  So the digits
there are those of the number itself (`Double.text_of_le`).
-/

namespace SumScript

/-! ## Powers of ten -/

theorem tenPow_pos (j : Nat) : 0 < tenPow j := Nat.pow_pos (by decide)

theorem tenPow_zero : tenPow 0 = 1 := rfl

theorem tenPow_succ (j : Nat) : tenPow (j + 1) = 10 * tenPow j := Nat.pow_succ'

theorem tenPow_add (i j : Nat) : tenPow (i + j) = tenPow i * tenPow j := Nat.pow_add 10 i j

theorem tenPow_lt_iff {i j : Nat} : tenPow i < tenPow j ↔ i < j :=
  Nat.pow_lt_pow_iff_right (by decide)

theorem tenPow_eq (j : Nat) : tenPow j = 1 <<< j * Nat.pow 5 j := by
  rw [Nat.one_shiftLeft]
  exact Nat.mul_pow 2 5 j

/-- The grid of whole numbers, counted in grains.  Nothing depends on the exponent, which is
generalised, as the powers have hundreds of digits. -/
theorem tenPow_whole : tenPow 1074 = Magnitude.one * grainsPerQuantum := by
  unfold Magnitude.one grainsPerQuantum
  generalize 1074 = j
  exact tenPow_eq j

theorem Magnitude.one_pos : 0 < Magnitude.one := shift_pos 1074

theorem grainsPerQuantum_pos : 0 < grainsPerQuantum := by
  unfold grainsPerQuantum
  generalize 1074 = j
  exact Nat.pow_pos (by decide)

/-! ## Readings -/

section

variable {reads : Nat → Bool}

/-- A reading is one of the two neighbours, and it reads back. -/
theorem nearestReading?_eq_some {value step c : Nat}
    (h : nearestReading? reads value step = some c) :
    reads (c * step) ∧ (c = value / step ∨ c = value / step + 1) := by
  rw [nearestReading?] at h
  split at h
  next hbelow habove =>
    cases h
    split
    · exact ⟨hbelow, Or.inl rfl⟩
    · exact ⟨habove, Or.inr rfl⟩
  next hbelow _ =>
    cases h
    exact ⟨hbelow, Or.inl rfl⟩
  next _ habove =>
    cases h
    exact ⟨habove, Or.inr rfl⟩
  next => cases h

/-- On a grid that holds the value itself, this is the nearest reading. -/
theorem nearestReading?_mul {step : Nat} (hstep : 0 < step) {n : Nat} (h : reads (n * step)) :
    nearestReading? reads (n * step) step = some n := by
  rw [nearestReading?, Nat.mul_div_cancel n hstep, Nat.mul_mod_left, h]
  split
  next => simp [hstep]
  next => rfl
  next heq _ => cases heq
  next heq _ => cases heq

/-- The search finds a reading on some grid and none on the coarser ones. -/
theorem exists_searchGrids {grains : Nat} (h : reads grains) (start : Nat) :
    ∃ j c : Nat, searchGrids reads grains start = ⟨c, (j : Int) - 1074⟩ ∧
      reads (c * tenPow j) ∧ (0 < j → nearestReading? reads grains (tenPow j) = some c) ∧
      ∀ i, j < i → i ≤ start → nearestReading? reads grains (tenPow i) = none := by
  induction start with
  | zero =>
      refine ⟨0, grains, rfl, ?_, nofun, ?_⟩
      · rwa [tenPow_zero, Nat.mul_one]
      · intro i hpos hle
        omega
  | succ start ih =>
      rw [searchGrids]
      split
      next c hc =>
        refine ⟨start + 1, c, rfl, (nearestReading?_eq_some hc).1, fun _ => hc, ?_⟩
        intro i hlt hle
        omega
      next hnone =>
        obtain ⟨j, c, hsearch, hreads, hsome, hcoarse⟩ := ih
        refine ⟨j, c, hsearch, hreads, hsome, ?_⟩
        intro i hj hi
        rcases Nat.lt_or_eq_of_le hi with hlt | rfl
        · exact hcoarse i hj (Nat.le_of_lt_succ hlt)
        · exact hnone

end

/-! ## Whole numbers -/

theorem readsBack_iff {quanta grains : Nat} :
    readsBack quanta grains ↔ roundQuanta grains grainsPerQuantum = quanta :=
  beq_iff_eq

theorem roundQuanta_mul_grains (n : Nat) :
    roundQuanta (n * grainsPerQuantum) grainsPerQuantum = roundQuanta n 1 := by
  have h := roundQuanta_mul_right n 1 grainsPerQuantum_pos
  rwa [Nat.one_mul] at h

theorem readsBack_self {quanta : Nat} (h : Representable quanta) :
    readsBack quanta (quanta * grainsPerQuantum) :=
  readsBack_iff.mpr ((roundQuanta_mul_grains quanta).trans (roundQuanta_of_representable h))

theorem Magnitude.IsWhole.exists_eq {m : Magnitude} (h : m.IsWhole) (hne : m.quanta ≠ 0) :
    ∃ n, 0 < n ∧ m.quanta = n * Magnitude.one := by
  obtain ⟨n, hn⟩ := h
  rw [Nat.mul_comm] at hn
  refine ⟨n, Nat.pos_of_ne_zero ?_, hn⟩
  rintro rfl
  exact hne (hn.trans (Nat.zero_mul _))

/-- The shortest decimal of a whole number is whole. -/
theorem Decimal.shortest_whole {n : Nat} (hpos : 0 < n)
    (h : Representable (n * Magnitude.one)) :
    ∃ c e : Nat, Decimal.shortest (n * Magnitude.one) = ⟨c, e⟩ ∧
      roundQuanta (c * tenPow e * Magnitude.one) 1 = n * Magnitude.one ∧ (e = 0 → c = n) := by
  have hgrains : n * Magnitude.one * grainsPerQuantum = n * tenPow 1074 := by
    rw [tenPow_whole, Nat.mul_assoc]
  have hreads := readsBack_self h
  rw [hgrains] at hreads
  have hself := nearestReading?_mul (tenPow_pos 1074) hreads
  have hstart : 1074 < digitBound (n * tenPow 1074) := by
    have hle : tenPow 1074 ≤ n * tenPow 1074 := Nat.le_mul_of_pos_left _ hpos
    exact tenPow_lt_iff.mp (Nat.lt_of_le_of_lt hle (lt_tenPow_digitBound _))
  obtain ⟨j, c, hsearch, hc, hsome, hcoarse⟩ :=
    exists_searchGrids hreads (digitBound (n * tenPow 1074))
  have hj : 1074 ≤ j := by
    refine Nat.le_of_not_lt fun hlt => ?_
    rw [hcoarse 1074 hlt (Nat.le_of_lt hstart)] at hself
    cases hself
  obtain ⟨e, rfl⟩ := Nat.exists_eq_add_of_le hj
  refine ⟨c, e, ?_, ?_, ?_⟩
  · rw [Decimal.shortest, hgrains, hsearch, Decimal.mk.injEq]
    omega
  · rw [readsBack_iff, Nat.add_comm, tenPow_add, tenPow_whole, ← Nat.mul_assoc, ← Nat.mul_assoc,
      roundQuanta_mul_grains] at hc
    exact hc
  · rintro rfl
    have hagain := hsome (by omega)
    rw [Nat.add_zero, hself] at hagain
    exact (Option.some.inj hagain).symm

/-! ## Numerals -/

/-- The digits of a number with some zeros after them. -/
def numeral (c e : Nat) : List Char := Nat.toDigits 10 c ++ List.replicate e '0'

theorem Decimal.positional_whole (c e : Nat) : Decimal.positional ⟨c, e⟩ = numeral c e := by
  simp [Decimal.positional, Decimal.isWhole, Decimal.digits, numeral]

theorem isDigit_of_mem_numeral {c e : Nat} {d : Char} (h : d ∈ numeral c e) : d.isDigit := by
  rcases List.mem_append.mp h with h | h
  · exact Nat.isDigit_of_mem_toDigits (by decide) (by decide) h
  · rw [List.eq_of_mem_replicate h]
    decide

theorem numeral_ne_nil (c e : Nat) : numeral c e ≠ [] := by
  simp [numeral, Nat.toDigits_ne_nil]

theorem literalValue?_numeral (c e : Nat) :
    literalValue? (.ofList (numeral c e)) = some (c * tenPow e) := by
  have hdigits : (numeral c e).all Char.isDigit :=
    List.all_eq_true.mpr fun _ hd => isDigit_of_mem_numeral hd
  have hvalue : Nat.ofDigitChars 10 (numeral c e) 0 = c * tenPow e := by
    rw [numeral, Nat.ofDigitChars_append, Nat.ofDigitChars_ten_toDigits,
      Nat.ofDigitChars_replicate_zero, Nat.mul_comm]
    rfl
  rw [literalValue?, String.toList_ofList, if_pos ⟨numeral_ne_nil c e, hdigits⟩, hvalue]

/-- Zeros after the digits are digits themselves. -/
theorem numeral_eq {c : Nat} (hpos : 0 < c) (e : Nat) :
    numeral c e = Nat.toDigits 10 (c * tenPow e) := by
  induction e with
  | zero => simp [numeral, tenPow_zero]
  | succ e ih =>
      have hzero : numeral c (e + 1) = numeral c e ++ Nat.toDigits 10 0 := by
        rw [numeral, numeral, List.replicate_succ', ← List.append_assoc]
        rfl
      rw [hzero, ih, Nat.toDigits_append_toDigits (by decide) (Nat.mul_pos hpos (tenPow_pos e))
        (by decide), tenPow_succ, Nat.add_zero, Nat.mul_left_comm]

theorem head?_toDigits {n : Nat} (h : 0 < n) : (Nat.toDigits 10 n).head? ≠ some '0' := by
  induction n using Nat.strongRecOn with
  | _ n ih =>
      rcases Nat.lt_or_ge n 10 with hlt | hge
      · rw [Nat.toDigits_of_lt_base hlt, List.head?_cons]
        intro hzero
        have hn := Nat.digitChar_eq_zero.mp (Option.some.inj hzero)
        omega
      · have hfirst := ih (n / 10) (by omega) (by omega)
        rwa [Nat.toDigits_of_base_le (by decide) hge, List.head?_append,
          Option.or_of_isSome (List.isSome_head?.mpr Nat.toDigits_ne_nil)]

/-! ## Texts of whole doubles -/

theorem Double.text_zero {m : Magnitude} (h : m.quanta = 0) (negative : Bool) :
    (Double.finite negative m).text = .ofList (numeral 0 0) := by
  simp [Double.text, Double.write, h, NumberStyle.printed, signMark, numeral]

/-- A whole double is written as a sign and a numeral that rounds to it. -/
theorem Double.exists_text {m : Magnitude} (h : m.IsWhole) (hne : m.quanta ≠ 0) (negative : Bool) :
    ∃ c e : Nat, (Double.finite negative m).text = .ofList (signMark negative ++ numeral c e) ∧
      roundQuanta (c * tenPow e * Magnitude.one) 1 = m.quanta ∧
      (e = 0 → m.quanta = c * Magnitude.one) := by
  obtain ⟨n, hpos, hn⟩ := h.exists_eq hne
  obtain ⟨c, e, hshortest, hround, hexact⟩ := Decimal.shortest_whole hpos (hn ▸ m.representable)
  refine ⟨c, e, ?_, hround.trans hn.symm, ?_⟩
  · rw [hn] at hne
    simp [Double.text, Double.write, NumberStyle.write, NumberStyle.printed, hn, hne, hshortest,
      Decimal.positional_whole]
  · intro he
    rw [hn, hexact he]

/-- The text of a whole double without a sign denotes it, as a literal. -/
theorem Double.literal?_text {m : Magnitude} (h : m.IsWhole) :
    literal? Double (Double.finite false m).text = some (.finite false m) := by
  have denotes : ∀ c e : Nat, (Double.finite false m).text = .ofList (numeral c e) →
      roundQuanta (c * tenPow e * Magnitude.one) 1 = m.quanta →
      literal? Double (Double.finite false m).text = some (.finite false m) := by
    intro c e htext hround
    rw [htext, literal?, literalValue?_numeral]
    exact congrArg some (Double.nearest_eq hround false)
  by_cases hzero : m.quanta = 0
  · refine denotes 0 0 (Double.text_zero hzero false) ?_
    rw [Nat.zero_mul, Nat.zero_mul, hzero]
    exact roundQuanta_of_representable representable_zero
  · obtain ⟨c, e, htext, hround, _⟩ := Double.exists_text h hzero false
    exact denotes c e htext hround

/-! ## Small numbers -/

theorem Magnitude.eq_of_mul_one {k n : Nat} (h : k * Magnitude.one = n * Magnitude.one) :
    k = n :=
  Nat.eq_of_mul_eq_mul_right Magnitude.one_pos h

theorem Magnitude.le_of_mul_one {k n : Nat} (h : k * Magnitude.one ≤ n * Magnitude.one) : k ≤ n :=
  Nat.le_of_mul_le_mul_right h Magnitude.one_pos

/-- The even number after 2 to the power 53 needs no rounding either. -/
theorem representable_even : Representable ((1 <<< 53 + 2) * Magnitude.one) := by
  have heq : (1 <<< 53 + 2) * Magnitude.one = (1 <<< 52 + 1) * 1 <<< (1074 + 1) := by
    rw [Nat.shiftLeft_succ 1 1074, ← Nat.mul_assoc]
    rfl
  rw [heq]
  exact representable_mul_shift (by decide) (by decide)

/-- A number that rounds to one up to 2 to the power 53 is that number.  Only the
greatest of these has another one that rounds to it, the next odd number, which
lies half way and goes to the even side.  The next even number is not rounded, so
nothing from there on is rounded below it. -/
theorem eq_or_eq_of_roundQuanta {k n : Nat} (hn : n ≤ 1 <<< 53)
    (h : roundQuanta (k * Magnitude.one) 1 = n * Magnitude.one) : k = n ∨ k = 1 <<< 53 + 1 := by
  by_cases hk : k ≤ 1 <<< 53
  · rw [roundQuanta_of_representable (representable_mul_one hk)] at h
    exact Or.inl (Magnitude.eq_of_mul_one h)
  · refine Or.inr (Nat.le_antisymm (Nat.le_of_not_lt fun hlt => ?_) (Nat.lt_of_not_le hk))
    have heven : 1 <<< 53 + 2 ≤ k := hlt
    have hmono := roundQuanta_mono (Nat.mul_le_mul_right Magnitude.one heven) 1
    rw [h, roundQuanta_of_representable representable_even] at hmono
    have hle := Magnitude.le_of_mul_one hmono
    omega

/-- Up to 2 to the power 53 the text of a number has just its digits.  The odd number that
rounds to the greatest of them is no shorter, since it is no multiple of ten. -/
theorem Double.text_of_le {m : Magnitude} {n : Nat} (hn : n ≤ 1 <<< 53)
    (h : m.quanta = n * Magnitude.one) (negative : Bool) :
    (Double.finite negative m).text =
      .ofList (signMark (negative && decide (n ≠ 0)) ++ Nat.toDigits 10 n) := by
  by_cases hzero : n = 0
  · subst hzero
    rw [Double.text_zero (h.trans (Nat.zero_mul _))]
    simp [signMark, numeral]
  · have hne : m.quanta ≠ 0 := by
      rw [h]
      exact Nat.mul_ne_zero hzero (Nat.pos_iff_ne_zero.mp Magnitude.one_pos)
    have hwhole : m.IsWhole := ⟨n, h.trans (Nat.mul_comm _ _)⟩
    obtain ⟨c, e, htext, hround, hexact⟩ := Double.exists_text hwhole hne negative
    have hvalue : c * tenPow e = n := by
      rcases eq_or_eq_of_roundQuanta hn (hround.trans h) with heq | heq
      · exact heq
      · cases e with
        | zero =>
            have hquanta := (hexact rfl).symm.trans h
            rw [Magnitude.eq_of_mul_one hquanta, tenPow_zero, Nat.mul_one]
        | succ e =>
            rw [tenPow_succ] at heq
            have hmod : (c * (10 * tenPow e)) % 10 = 0 := by
              rw [Nat.mul_left_comm]
              exact Nat.mul_mod_right _ _
            rw [heq] at hmod
            cases hmod
    have hc : 0 < c := by
      refine Nat.pos_of_ne_zero ?_
      rintro rfl
      exact hzero (hvalue.symm.trans (Nat.zero_mul _))
    rw [htext, numeral_eq hc, hvalue]
    simp [hzero]

end SumScript
