import SumScript.Proofs.Decimal.Fewest
import SumScript.Proofs.Decimal.Literal

/-!
# The texts of doubles

A finite double is printed as a sign and digits, perhaps with a point between them.
`PlainDecimal` says what else is promised about such a text: no zero stands in front
without need and none ends a fraction.  A plain decimal is determined by its text
(`PlainDecimal.text_injective`), so the text denotes one rational number.

The positional writing of a decimal is plain if its last digit is not zero
(`Decimal.exists_plain`).  Of the shortest decimal this is known.  It has a fraction just
when the double has: a whole number reads back on the grid of whole numbers, so the search
ends there at the latest, and a whole decimal is rounded to a whole number.

`PlainDecimal.IsShortest` collects what the text of a finite pattern has to be.  Since the
text denotes a number that rounds to the pattern, two patterns with one text are the same
number (`Double.sameNumber_of_text`).
-/

namespace SumScript

/-! ## Plain decimals -/

/-- A number in positional writing without a superfluous zero. -/
structure PlainDecimal where
  /-- The digits before the point. -/
  whole : List Char
  /-- The digits after the point.  If there are none there is no point. -/
  fraction : List Char
  isNumeral : IsNumeral whole
  noLeadingZero : whole.head? = some '0' → whole = ['0']
  isDigit : ∀ c ∈ fraction, c.isDigit
  noTrailingZero : fraction.getLast? ≠ some '0'

namespace PlainDecimal

/-- The digits, with a point between them if there is a fraction. -/
def text (d : PlainDecimal) : List Char :=
  d.whole ++ if d.fraction = [] then [] else '.' :: d.fraction

/-- The number that is written. -/
def value (d : PlainDecimal) : ℚ := digitsValue (d.whole ++ d.fraction) / 10 ^ d.fraction.length

theorem value_nonneg (d : PlainDecimal) : 0 ≤ d.value := by
  unfold value
  positivity

theorem takeWhile_text (d : PlainDecimal) : d.text.takeWhile Char.isDigit = d.whole := by
  rw [text, List.takeWhile_append_of_pos d.isNumeral.2]
  split
  · rw [List.takeWhile_nil, List.append_nil]
  · rw [List.takeWhile_cons_of_neg (by decide), List.append_nil]

theorem drop_text (d : PlainDecimal) : d.text.drop (d.whole.length + 1) = d.fraction := by
  rw [text, ← List.drop_drop, List.drop_left]
  split
  next h => exact h.symm
  next => rfl

theorem text_injective {d d' : PlainDecimal} (h : d.text = d'.text) : d = d' := by
  have hwhole : d.whole = d'.whole := by rw [← takeWhile_text, h, takeWhile_text]
  have hfraction : d.fraction = d'.fraction := by rw [← drop_text, h, hwhole, drop_text]
  cases d
  cases d'
  cases hwhole
  cases hfraction
  rfl

theorem point_mem_text {d : PlainDecimal} : '.' ∈ d.text ↔ d.fraction ≠ [] := by
  have hwhole : '.' ∉ d.whole := fun h => absurd (d.isNumeral.2 _ h) (by decide)
  rw [text, List.mem_append]
  split
  next h => simp [hwhole, h]
  next h => simp [h]

/-- A natural number. -/
def ofNat (n : Nat) : PlainDecimal where
  whole := Nat.toDigits 10 n
  fraction := []
  isNumeral := ⟨Nat.toDigits_ne_nil, fun _ => Nat.isDigit_of_mem_toDigits (by decide) (by decide)⟩
  noLeadingZero h := by
    obtain rfl : n = 0 := Nat.eq_zero_of_not_pos fun hpos => head?_toDigits hpos h
    rfl
  isDigit := nofun
  noTrailingZero := nofun

theorem text_ofNat (n : Nat) : (ofNat n).text = Nat.toDigits 10 n := List.append_nil _

theorem value_ofNat (n : Nat) : (ofNat n).value = n := by
  have hdigits : digitsValue (Nat.toDigits 10 n) = n := by
    rw [← ofDigitChars_eq, Nat.ofDigitChars_ten_toDigits]
  simp [value, ofNat, hdigits]

end PlainDecimal

/-! ## Padding -/

/-- The digits of a number, with zeros before them if there are no more digits than
places. -/
def paddedDigits (c places : Nat) : List Char :=
  List.replicate (places + 1 - (Nat.toDigits 10 c).length) '0' ++ Nat.toDigits 10 c

section

variable (c places : Nat)

theorem lt_length_paddedDigits : places < (paddedDigits c places).length := by
  rw [paddedDigits, List.length_append, List.length_replicate]
  omega

theorem isNumeral_paddedDigits : IsNumeral (paddedDigits c places) := by
  refine ⟨List.ne_nil_of_length_pos (Nat.zero_lt_of_lt (lt_length_paddedDigits c places)), ?_⟩
  intro d hd
  rcases List.mem_append.mp hd with hd | hd
  · rw [List.eq_of_mem_replicate hd]
    decide
  · exact Nat.isDigit_of_mem_toDigits (by decide) (by decide) hd

theorem digitsValue_paddedDigits : digitsValue (paddedDigits c places) = c := by
  rw [← ofDigitChars_eq, paddedDigits, Nat.ofDigitChars_append, Nat.ofDigitChars_replicate_zero,
    Nat.mul_zero, Nat.ofDigitChars_ten_toDigits]

theorem getLast?_paddedDigits :
    (paddedDigits c places).getLast? = some (Nat.digitChar (c % 10)) := by
  rw [paddedDigits, List.getLast?_append_of_ne_nil _ Nat.toDigits_ne_nil]
  rcases Nat.lt_or_ge c 10 with hlt | hge
  · rw [Nat.toDigits_of_lt_base hlt, Nat.mod_eq_of_lt hlt]
    rfl
  · rw [Nat.toDigits_of_base_le (by decide) hge, List.getLast?_concat]

end

/-- Only what is padded starts with a zero. -/
theorem length_of_head?_paddedDigits {c places : Nat} (hpos : 0 < c)
    (h : (paddedDigits c places).head? = some '0') :
    (paddedDigits c places).length = places + 1 := by
  rcases Nat.lt_or_ge places (Nat.toDigits 10 c).length with hlt | hge
  · rw [paddedDigits, Nat.sub_eq_zero_of_le hlt, List.replicate_zero, List.nil_append] at h
    exact absurd h (head?_toDigits hpos)
  · rw [paddedDigits, List.length_append, List.length_replicate]
    omega

/-- A number with some of its digits after the point, the last of them not zero. -/
def PlainDecimal.ofPlaces {c : Nat} (hpos : 0 < c) (h : ¬ 10 ∣ c) (places : Nat) :
    PlainDecimal where
  whole := (paddedDigits c places).take ((paddedDigits c places).length - places)
  fraction := (paddedDigits c places).drop ((paddedDigits c places).length - places)
  isNumeral := by
    refine ⟨?_, fun d hd => (isNumeral_paddedDigits c places).2 d (List.mem_of_mem_take hd)⟩
    have hlt := lt_length_paddedDigits c places
    refine List.ne_nil_of_length_pos ?_
    rw [List.length_take]
    omega
  noLeadingZero hzero := by
    have hlt := lt_length_paddedDigits c places
    rw [List.head?_take, if_neg (by omega)] at hzero
    rw [length_of_head?_paddedDigits hpos hzero, Nat.add_sub_cancel_left, List.take_one, hzero]
    rfl
  isDigit d hd := (isNumeral_paddedDigits c places).2 d (List.mem_of_mem_drop hd)
  noTrailingZero hzero := by
    rw [List.getLast?_drop, getLast?_paddedDigits] at hzero
    split at hzero
    next => cases hzero
    next =>
      have hmod := Nat.digitChar_eq_zero.mp (Option.some.inj hzero)
      exact h (Nat.dvd_of_mod_eq_zero hmod)

section

variable {c : Nat} (hpos : 0 < c) (h : ¬ 10 ∣ c) (places : Nat)

theorem PlainDecimal.length_fraction_ofPlaces :
    (ofPlaces hpos h places).fraction.length = places := by
  have hlt := lt_length_paddedDigits c places
  rw [ofPlaces, List.length_drop]
  omega

theorem PlainDecimal.value_ofPlaces : (ofPlaces hpos h places).value = c / 10 ^ places := by
  rw [value, length_fraction_ofPlaces, ofPlaces, List.take_append_drop, digitsValue_paddedDigits]

end

/-- The positional writing is plain if the last digit is not zero. -/
theorem Decimal.exists_plain {d : Decimal} (hpos : 0 < d.coefficient) (h : ¬ 10 ∣ d.coefficient) :
    ∃ p : PlainDecimal, p.text = d.positional ∧ p.value = d.value ∧
      (p.fraction = [] ↔ 0 ≤ d.exponent) := by
  obtain ⟨c, e⟩ := d
  replace hpos : 0 < c := hpos
  cases e with
  | ofNat e =>
      refine ⟨.ofNat (c * tenPow e), ?_, ?_, iff_of_true rfl (Int.natCast_nonneg e)⟩
      · rw [PlainDecimal.text_ofNat, ← numeral_eq hpos]
        exact (Decimal.positional_whole c e).symm
      · rw [PlainDecimal.value_ofNat, Nat.cast_mul, cast_tenPow, Decimal.value,
          Int.ofNat_eq_natCast, zpow_natCast]
  | negSucc e =>
      have hne : (PlainDecimal.ofPlaces hpos h (e + 1)).fraction ≠ [] := by
        refine List.ne_nil_of_length_pos ?_
        rw [PlainDecimal.length_fraction_ofPlaces]
        exact Nat.succ_pos e
      refine ⟨.ofPlaces hpos h (e + 1), ?_, ?_,
        iff_of_false hne (Int.not_le.mpr (Int.negSucc_lt_zero e))⟩
      · rw [PlainDecimal.text, if_neg hne]
        rfl
      · rw [PlainDecimal.value_ofPlaces, Decimal.value, zpow_negSucc, div_eq_mul_inv]

/-! ## The shortest writing of a magnitude -/

/-- A whole decimal is rounded to a whole number. -/
theorem Decimal.IsShortest.isWhole {d : Decimal} {m : Magnitude} (h : d.IsShortest m.quanta)
    (hwhole : 0 ≤ d.exponent) : m.IsWhole := by
  obtain ⟨e, he⟩ := Int.eq_ofNat_of_zero_le hwhole
  have hvalue : d.value = |((d.coefficient * 10 ^ e : Nat) : ℚ)| := by
    rw [Decimal.value, he, zpow_natCast, Nat.abs_cast, Nat.cast_mul, Nat.cast_pow, Nat.cast_ofNat]
  have hnearest := h.isNearest
  rw [hvalue] at hnearest
  rw [Magnitude.IsWhole, hnearest.unique (by positivity) (isNearest_ofNat _)]
  exact shift_dvd_roundQuanta (Nat.dvd_mul_left _ _)

theorem Magnitude.IsWhole.exponent_shortest {m : Magnitude} (h : m.IsWhole) (hne : m.quanta ≠ 0) :
    0 ≤ (Decimal.shortest m.quanta).exponent := by
  obtain ⟨n, hpos, hn⟩ := h.exists_eq hne
  obtain ⟨c, e, hshortest, -⟩ := Decimal.shortest_whole hpos (hn ▸ m.representable)
  rw [hn, hshortest]
  exact Int.natCast_nonneg e

/-- The plain decimal is a shortest one of those that round to a magnitude. -/
structure PlainDecimal.ShortestOf (d : PlainDecimal) (m : Magnitude) : Prop where
  isNearest : IsNearest (d.value * 2 ^ 1074) m.quanta
  whole_iff : d.fraction = [] ↔ m.IsWhole
  fewest : ∀ q k, IsNearest (|q| * 2 ^ 1074) m.quanta → WrittenWith k q → WrittenWith k d.value

namespace PlainDecimal

theorem shortestOf_zero {m : Magnitude} (h : m.quanta = 0) : (ofNat 0).ShortestOf m := by
  have hvalue : (ofNat 0).value = 0 := by rw [value_ofNat, Nat.cast_zero]
  have hnearest := isNearest_ofNat 0
  rw [Nat.zero_mul, roundQuanta_of_representable representable_zero, Nat.cast_zero, abs_zero]
    at hnearest
  refine ⟨by rwa [hvalue, h], iff_of_true rfl ?_, ?_⟩
  · rw [Magnitude.IsWhole, h]
    exact Nat.dvd_zero _
  · intro q k _ _
    refine ⟨0, 0, Nat.pow_pos (by decide), ?_⟩
    rw [hvalue, abs_zero, Nat.cast_zero, zero_mul]

theorem exists_shortestOf {m : Magnitude} (h : m.quanta ≠ 0) :
    ∃ d : PlainDecimal, d.ShortestOf m ∧ d.text = (Decimal.shortest m.quanta).positional := by
  have hshortest := Decimal.isShortest (Nat.pos_of_ne_zero h) m.representable
  obtain ⟨d, htext, hvalue, hfraction⟩ := Decimal.exists_plain hshortest.pos hshortest.trimmed
  refine ⟨d, ⟨hvalue ▸ hshortest.isNearest, ?_, ?_⟩, htext⟩
  · exact hfraction.trans ⟨hshortest.isWhole, fun hwhole => hwhole.exponent_shortest h⟩
  · intro q k hq hk
    refine ⟨_, (Decimal.shortest m.quanta).exponent, hshortest.fewest q k hq hk, ?_⟩
    rw [abs_of_nonneg d.value_nonneg, hvalue]
    rfl

end PlainDecimal

/-- A finite double is written as a sign, which a zero does not have, and a shortest plain
decimal. -/
theorem Double.exists_plain (negative : Bool) (m : Magnitude) :
    ∃ d : PlainDecimal, d.ShortestOf m ∧
      (Double.finite negative m).text =
        .ofList (signMark (negative && decide (m.quanta ≠ 0)) ++ d.text) := by
  by_cases hzero : m.quanta = 0
  · refine ⟨_, PlainDecimal.shortestOf_zero hzero, ?_⟩
    rw [Double.text_zero hzero, PlainDecimal.text_ofNat, decide_eq_false (not_not.mpr hzero),
      Bool.and_false]
    rfl
  · obtain ⟨d, hd, htext⟩ := PlainDecimal.exists_shortestOf hzero
    refine ⟨d, hd, ?_⟩
    rw [htext, decide_eq_true hzero, Bool.and_true]
    simp [Double.text, Double.write, NumberStyle.write, NumberStyle.printed, hzero]

/-! ## Texts tell numbers apart -/

theorem PlainDecimal.exists_cons (d : PlainDecimal) :
    ∃ c rest, d.text = c :: rest ∧ c.isDigit := by
  obtain ⟨c, rest, hwhole⟩ := List.exists_cons_of_ne_nil d.isNumeral.1
  refine ⟨c, _, by rw [text, hwhole, List.cons_append], ?_⟩
  exact d.isNumeral.2 c (hwhole ▸ List.mem_cons_self)

theorem Double.toList_text (x : Double) : x.text.toList = x.write .printed := String.toList_ofList

/-- Just finite doubles have digits. -/
theorem Double.any_isDigit_text_iff {x : Double} :
    x.text.toList.any Char.isDigit ↔ ∃ negative m, x = .finite negative m := by
  cases x with
  | nan =>
      rw [Double.toList_text]
      exact iff_of_false (by decide) (by simp)
  | infinite negative =>
      rw [Double.toList_text]
      refine iff_of_false ?_ (by simp)
      cases negative <;> decide
  | finite negative m =>
      refine iff_of_true ?_ ⟨negative, m, rfl⟩
      obtain ⟨d, -, htext⟩ := Double.exists_plain negative m
      obtain ⟨c, rest, hd, hc⟩ := d.exists_cons
      simp [htext, hd, hc]

/-- The sign and the decimal can be read off their text, as a digit is no sign. -/
theorem PlainDecimal.signMark_append_injective {d d' : PlainDecimal} {negative negative' : Bool}
    (h : signMark negative ++ d.text = signMark negative' ++ d'.text) :
    negative = negative' ∧ d = d' := by
  have hsign : ∀ (d d' : PlainDecimal), '-' :: d.text ≠ d'.text := by
    intro d d' heq
    obtain ⟨c, rest, hd, hc⟩ := d'.exists_cons
    obtain ⟨rfl, -⟩ := List.cons.inj (heq.trans hd)
    exact absurd hc (by decide)
  cases negative <;> cases negative'
  · exact ⟨rfl, text_injective h⟩
  · exact absurd h.symm (hsign d' d)
  · exact absurd h (hsign d d')
  · exact ⟨rfl, text_injective (List.cons.inj h).2⟩

/-- Equal texts are those of the same number, as one text denotes one number and this rounds
to one magnitude. -/
theorem Double.sameNumber_of_text {x y : Double} (h : x.text = y.text) :
    x = .nan ∧ y = .nan ∨ x.sameNumber y := by
  have hfinite : (∃ negative m, x = .finite negative m) ↔ ∃ negative m, y = .finite negative m := by
    rw [← Double.any_isDigit_text_iff, h, Double.any_isDigit_text_iff]
  have hwrite : x.write .printed = y.write .printed := String.ofList_inj.mp h
  cases x with
  | finite a m =>
      obtain ⟨b, n, rfl⟩ := hfinite.mp ⟨a, m, rfl⟩
      obtain ⟨d, hd, htext⟩ := Double.exists_plain a m
      obtain ⟨d', hd', htext'⟩ := Double.exists_plain b n
      rw [htext, htext', String.ofList_inj] at h
      obtain ⟨hsign, rfl⟩ := PlainDecimal.signMark_append_injective h
      have hquanta := hd.isNearest.unique (mul_nonneg d.value_nonneg (by positivity)) hd'.isNearest
      obtain rfl := Magnitude.eq_of_quanta hquanta
      refine Or.inr (beq_iff_eq.mpr ?_)
      by_cases hzero : m.quanta = 0
      · simp [Double.signed, hzero]
      · rw [decide_eq_true hzero, Bool.and_true, Bool.and_true] at hsign
        rw [hsign]
  | nan =>
      cases y with
      | nan => exact Or.inl ⟨rfl, rfl⟩
      | infinite b => cases b <;> cases hwrite
      | finite b n => exact absurd (hfinite.mpr ⟨b, n, rfl⟩) (by simp)
  | infinite a =>
      cases y with
      | nan => cases a <;> cases hwrite
      | infinite b =>
          refine Or.inr ?_
          cases a <;> cases b
          · rfl
          · cases hwrite
          · cases hwrite
          · rfl
      | finite b n => exact absurd (hfinite.mpr ⟨b, n, rfl⟩) (by simp)

/-! ## Bit patterns -/

/-- The plain decimal is what a finite pattern has to be written as. -/
structure PlainDecimal.IsShortest (d : PlainDecimal) (b : UInt64) : Prop where
  point : '.' ∈ d.text ↔ ¬ ∃ z : ℤ, Bits.value b = z
  roundsTo : RoundsTo (if Bits.value b < 0 then -d.value else d.value) b
  /-- What rounds to the pattern has no fewer significant digits. -/
  fewest : ∀ q k, RoundsTo q b → WrittenWith k q → WrittenWith k d.value

theorem PlainDecimal.ShortestOf.isShortest {d : PlainDecimal} {m : Magnitude} (h : d.ShortestOf m)
    {b : UInt64} (hfinite : Bits.IsFinite b) (hm : m.quanta = Bits.quanta b) : d.IsShortest b where
  point := by rw [point_mem_text, Ne, h.whole_iff, Bits.isInt_value_iff, Magnitude.IsWhole, hm]
  roundsTo := by
    have habs : |if Bits.value b < 0 then -d.value else d.value| = d.value := by
      split
      · rw [abs_neg, abs_of_nonneg d.value_nonneg]
      · rw [abs_of_nonneg d.value_nonneg]
    have hnearest := h.isNearest
    rw [hm, ← habs] at hnearest
    refine hnearest.roundsTo hfinite ?_
    split
    next hneg => exact mul_nonneg_of_nonpos_of_nonpos (neg_nonpos.mpr d.value_nonneg) hneg.le
    next hneg => exact mul_nonneg d.value_nonneg (not_lt.mp hneg)
  fewest q k hq hk := h.fewest q k (hm ▸ hq.isNearest) hk

theorem Double.text_of_isFinite {b : UInt64} (h : Bits.IsFinite b) :
    ∃ d : PlainDecimal, d.IsShortest b ∧
      (Double.ofBits b).text = .ofList (signMark (decide (Bits.value b < 0)) ++ d.text) := by
  obtain ⟨m, hb, hm⟩ := Bits.ofBits_of_isFinite h
  obtain ⟨d, hd, htext⟩ := Double.exists_plain (decide (Bits.sign b = 1)) m
  refine ⟨d, hd.isShortest h hm, ?_⟩
  rw [hb, htext, hm, decide_eq_decide.mpr Bits.value_neg_iff, Bool.decide_and]

/-- What is printed for a pattern.  A finite one is written as a sign, which only negative
numbers have, and a shortest plain decimal that rounds to it.  Equal texts are those of
equal numbers or of what is not a number. -/
theorem Double.text_shortest (b : UInt64) :
    (Bits.IsNaN b → (Double.ofBits b).text = "NaN") ∧
      (b = 0x7ff0000000000000 → (Double.ofBits b).text = "inf") ∧
      (b = 0xfff0000000000000 → (Double.ofBits b).text = "-inf") ∧
      (Bits.IsFinite b → Bits.value b = 0 → (Double.ofBits b).text = "0") ∧
      (Bits.IsFinite b → ∃ d : PlainDecimal, d.IsShortest b ∧
        (Double.ofBits b).text = .ofList (signMark (decide (Bits.value b < 0)) ++ d.text)) ∧
      ∀ c, (Double.ofBits b).text = (Double.ofBits c).text →
        (Double.ofBits b).sameNumber (Double.ofBits c) ∨ (Bits.IsNaN b ∧ Bits.IsNaN c) := by
  refine ⟨?_, ?_, ?_, ?_, Double.text_of_isFinite, ?_⟩
  · intro h
    rw [Bits.ofBits_eq_nan_iff.mpr h]
    rfl
  · rintro rfl
    decide
  · rintro rfl
    decide
  · intro h hzero
    obtain ⟨m, hb, hm⟩ := Bits.ofBits_of_isFinite h
    rw [hb, Double.text_zero (hm.trans (Bits.value_eq_zero_iff.mp hzero))]
    rfl
  · intro c h
    rw [← Bits.ofBits_eq_nan_iff, ← Bits.ofBits_eq_nan_iff]
    exact (Double.sameNumber_of_text h).symm

/-- The exact value here has one digit more, which puts it half way between two decimals
that both round to it. -/
theorem Double.text_negativePower :
    (Double.ofBits 0xbe60000000000000).text = "-0.000000029802322387695313" ∧
      ∃ d : PlainDecimal, d.text = "0.000000029802322387695313".toList ∧
        d.IsShortest 0xbe60000000000000 := by
  have htext : (Double.ofBits 0xbe60000000000000).text = "-0.000000029802322387695313" := by
    decide +kernel
  have hneg : Bits.value 0xbe60000000000000 < 0 :=
    Bits.value_neg_iff.mpr ⟨by decide, by decide +kernel⟩
  obtain ⟨d, hshortest, hd⟩ := (Double.text_shortest 0xbe60000000000000).2.2.2.2.1 (by decide)
  rw [htext, decide_eq_true hneg] at hd
  refine ⟨htext, d, ?_, hshortest⟩
  have hlist : "-0.000000029802322387695313".toList = signMark true ++ d.text := by
    rw [hd, String.toList_ofList]
  exact (List.cons.inj hlist).2.symm

end SumScript
