import StackMachine.Binary64.Fixed
import StackMachine.Proofs.Binary64.Rounding
import StackMachine.Proofs.Text.Digits
import StackMachine.Proofs.Text.Trimming

/-!
# Text of numbers

The text of a finite number is the numeral without superfluous digits (`Numeral`) of its sign and of
its magnitude rounded to eight decimal places.  `fixedText_canonical` says so, and that numbers with
the same sign and the same rounded magnitude share it.
-/

namespace StackMachine.Binary64

variable {x y : Binary64} {q : ℚ} {text : List Char} {negative : Bool} {magnitude : ℚ} {units : Nat}

/-- The digits behind a point, of which there are at most eight, and the last is not zero.  There
    are none if the number is whole. -/
structure Fraction (digits : List Char) : Prop where
  length_le : digits.length ≤ places
  all : Text.Digits digits
  last : digits.getLast? ≠ some '0'

/-- The characters of a sign. -/
def signText (negative : Bool) : List Char := if negative then ['-'] else []

/-- A fraction with the point in front of it, if there is one. -/
def pointed : List Char → List Char
  | [] => []
  | digits => '.' :: digits

/-- The text is a numeral of a sign and a magnitude, without superfluous digits: a minus exactly for
    the negative sign, a whole part, and a point and a fraction unless that is zero. -/
def Numeral (text : List Char) (negative : Bool) (magnitude : ℚ) : Prop :=
  ∃ whole fraction, Text.Whole whole ∧ Fraction fraction ∧
    text = signText negative ++ (whole ++ pointed fraction) ∧
    magnitude = Text.value (whole ++ fraction) / 10 ^ fraction.length

/-- The text without zeros and then without points at its end. -/
def trimmed (text : List Char) : List Char :=
  (text.rdropWhile (· == '0')).rdropWhile (· == '.')

/-! ## Digits of a magnitude -/

/-- All eight digits behind the point. -/
def paddedDigits (units : Nat) : List Char :=
  (Text.padLeft places '0' (Text.decimal (units % 10 ^ places))).toList

theorem paddedDigits_eq (units : Nat) :
    paddedDigits units =
      List.replicate (places - (Nat.toDigits 10 (units % 10 ^ places)).length) '0' ++
        Nat.toDigits 10 (units % 10 ^ places) := by
  simp [paddedDigits, Text.padLeft, Text.decimal]

theorem digits_paddedDigits (units : Nat) : Text.Digits (paddedDigits units) := by
  rw [paddedDigits_eq]
  exact (Text.Digits.replicate_zero _).append (.toDigits _)

theorem length_paddedDigits (units : Nat) : (paddedDigits units).length = places := by
  have hle : (Nat.toDigits 10 (units % 10 ^ places)).length ≤ places :=
    (Nat.length_toDigits_le_iff (by decide) (by decide)).mpr (Nat.mod_lt _ (by decide))
  rw [paddedDigits_eq, List.length_append, List.length_replicate]
  omega

theorem value_paddedDigits (units : Nat) :
    Text.value (paddedDigits units) = units % 10 ^ places := by
  rw [paddedDigits_eq, Text.value_append, Text.value_replicate_zero, Nat.zero_mul, Nat.zero_add,
    Text.value_toDigits]

theorem dropTrailingZeros_append_replicate {digits : List Char} (h : digits.getLast? ≠ some '0')
    (n : Nat) : dropTrailingZeros (digits ++ List.replicate n '0') = digits := by
  have hzeros : ∀ c ∈ List.replicate n '0', (c == '0') = true := fun c hc =>
    beq_iff_eq.mpr (List.eq_of_mem_replicate hc)
  calc dropTrailingZeros (digits ++ List.replicate n '0')
      = (digits ++ List.replicate n '0').rdropWhile (· == '0') := rfl
    _ = digits.rdropWhile (· == '0') := Text.rdropWhile_append_of_pos digits hzeros
    _ = digits := Text.rdropWhile_beq_eq_self h

/-- A list of characters is what is left without the zeros at its end, and these zeros. -/
theorem exists_dropTrailingZeros (digits : List Char) :
    ∃ n, digits = dropTrailingZeros digits ++ List.replicate n '0' := by
  have hzeros : ∀ c ∈ digits.rtakeWhile (· == '0'), c = '0' := fun c hc => by
    simpa using List.mem_rtakeWhile_imp hc
  refine ⟨(digits.rtakeWhile (· == '0')).length, ?_⟩
  rw [← List.eq_replicate_of_mem hzeros]
  exact (List.rdropWhile_append_rtakeWhile (p := (· == '0'))).symm

theorem paddedDigits_eq_fraction (units : Nat) :
    paddedDigits units = fractionDigits units ++
      List.replicate (places - (fractionDigits units).length) '0' := by
  obtain ⟨n, hn⟩ := exists_dropTrailingZeros (paddedDigits units)
  have hlength := congrArg List.length hn
  rw [length_paddedDigits, List.length_append, List.length_replicate] at hlength
  have hfraction : dropTrailingZeros (paddedDigits units) = fractionDigits units := rfl
  rw [hfraction] at hlength hn
  rw [hlength, Nat.add_sub_cancel_left]
  exact hn

theorem fraction_fractionDigits (units : Nat) : Fraction (fractionDigits units) where
  length_le := by
    have hlength := congrArg List.length (paddedDigits_eq_fraction units)
    rw [length_paddedDigits, List.length_append] at hlength
    omega
  all := by
    intro c hc
    apply digits_paddedDigits units
    rw [paddedDigits_eq_fraction]
    exact List.mem_append_left _ hc
  last := by
    by_cases hne : fractionDigits units = []
    · rw [hne]
      exact nofun
    · have hnot := List.rdropWhile_last_not (· == '0') (paddedDigits units) hne
      rw [List.getLast?_eq_some_getLast hne]
      intro hzero
      exact hnot (beq_iff_eq.mpr (Option.some_inj.mp hzero))

/-- With the zeros that were dropped, a fraction has its place value. -/
theorem value_padded (whole : List Char) {fraction : List Char}
    (hlength : fraction.length ≤ places) :
    Text.value (whole ++ fraction) * 10 ^ (places - fraction.length) =
      Text.value whole * 10 ^ places +
        Text.value (fraction ++ List.replicate (places - fraction.length) '0') := by
  have hplaces : 10 ^ places = 10 ^ fraction.length * 10 ^ (places - fraction.length) := by
    rw [← Nat.pow_add, Nat.add_sub_cancel' hlength]
  rw [Text.value_append, Text.value_append, Text.value_replicate_zero, List.length_replicate,
    Nat.add_zero, Nat.add_mul, Nat.mul_assoc, ← hplaces]

theorem toList_fixedMagnitude (units : Nat) :
    (fixedMagnitude units).toList =
      Nat.toDigits 10 (units / 10 ^ places) ++ pointed (fractionDigits units) := by
  unfold fixedMagnitude
  cases fractionDigits units <;> simp [Text.decimal, pointed]

/-! ## Numerals -/

theorem div_eq_div_places_iff {n length : Nat} (hlength : length ≤ places) :
    (units : ℚ) / 10 ^ places = n / 10 ^ length ↔ n * 10 ^ (places - length) = units := by
  have hplaces : (10 : ℚ) ^ places = 10 ^ length * 10 ^ (places - length) := by
    rw [← pow_add, Nat.add_sub_cancel' hlength]
  rw [hplaces, div_eq_div_iff (by positivity) (by positivity)]
  constructor
  · intro h
    have hcancel : (n : ℚ) * 10 ^ (places - length) = units := by
      apply mul_right_cancel₀ (b := (10 : ℚ) ^ length) (by positivity)
      rw [h]
      ring
    exact_mod_cast hcancel
  · rintro rfl
    push_cast
    ring

/-- A magnitude of a count of units has one numeral. -/
theorem numeral_iff (text : List Char) (negative : Bool) (units : Nat) :
    Numeral text negative (units / 10 ^ places) ↔
      text = signText negative ++ (fixedMagnitude units).toList := by
  rw [toList_fixedMagnitude]
  constructor
  · rintro ⟨whole, fraction, hwhole, hfraction, rfl, hvalue⟩
    rw [div_eq_div_places_iff hfraction.length_le, value_padded whole hfraction.length_le] at hvalue
    let zeros := List.replicate (places - fraction.length) '0'
    have hlength : (fraction ++ zeros).length = places := by
      rw [List.length_append, List.length_replicate, Nat.add_sub_cancel' hfraction.length_le]
    have hdigits : Text.Digits (fraction ++ zeros) := hfraction.all.append (.replicate_zero _)
    -- The digits are split where the count of units is.
    have hsplit : Text.value whole = units / 10 ^ places ∧
        Text.value (fraction ++ zeros) = units % 10 ^ places := by
      apply Text.mul_add_inj (hlength ▸ hdigits.value_lt) (Nat.mod_lt _ (by decide))
      rw [hvalue, Nat.div_add_mod']
    have hpadded : fraction ++ zeros = paddedDigits units := by
      apply hdigits.eq_of_value (digits_paddedDigits units)
      · rw [hlength, length_paddedDigits]
      · rw [hsplit.2, value_paddedDigits]
    have hfraction' : fractionDigits units = fraction := by
      rw [← dropTrailingZeros_append_replicate hfraction.last, hpadded]
      rfl
    rw [← hsplit.1, ← hwhole.eq_toDigits, hfraction']
  · rintro rfl
    have hfraction := fraction_fractionDigits units
    refine ⟨_, _, .toDigits _, hfraction, rfl, ?_⟩
    rw [div_eq_div_places_iff hfraction.length_le, value_padded _ hfraction.length_le,
      ← paddedDigits_eq_fraction, value_paddedDigits, Text.value_toDigits, Nat.div_add_mod']

/-- The whole part of a numeral without sign are the digits in front of the first other
    character. -/
theorem takeWhile_isDigit_pointed {whole : List Char} (hwhole : Text.Digits whole)
    (fraction : List Char) : (whole ++ pointed fraction).takeWhile Char.isDigit = whole := by
  rw [List.takeWhile_append_of_pos hwhole]
  cases fraction <;> simp [pointed]

theorem dropWhile_isDigit_pointed {whole : List Char} (hwhole : Text.Digits whole)
    (fraction : List Char) :
    (whole ++ pointed fraction).dropWhile Char.isDigit = pointed fraction := by
  rw [List.dropWhile_append_of_pos hwhole]
  cases fraction <;> simp [pointed]

theorem pointed_inj {fraction other : List Char} (h : pointed fraction = pointed other) :
    fraction = other := by
  cases fraction <;> cases other <;> simp_all [pointed]

theorem head?_signText {whole : List Char} (hwhole : Text.Whole whole) (after : List Char) :
    (signText negative ++ (whole ++ after)).head? = some '-' ↔ negative = true := by
  obtain ⟨c, rest, rfl⟩ := List.exists_cons_of_ne_nil hwhole.nonempty
  have hc : c ≠ '-' := by
    rintro rfl
    exact absurd (hwhole.all '-' List.mem_cons_self) (by decide)
  cases negative <;> simp [signText, hc]

/-- A text is the numeral of one sign and one magnitude. -/
theorem Numeral.unique {other : Bool} {q' : ℚ} (h : Numeral text negative q)
    (hother : Numeral text other q') : negative = other ∧ q = q' := by
  obtain ⟨whole, fraction, hwhole, hfraction, rfl, rfl⟩ := h
  obtain ⟨whole', fraction', hwhole', hfraction', heq, rfl⟩ := hother
  have hsign : negative = other := by
    rw [Bool.eq_iff_iff, ← head?_signText hwhole (pointed fraction), heq, head?_signText hwhole']
  subst hsign
  have hrest := List.append_cancel_left heq
  have hw : whole = whole' := by
    rw [← takeWhile_isDigit_pointed hwhole.all fraction, hrest,
      takeWhile_isDigit_pointed hwhole'.all]
  subst hw
  have hf := pointed_inj (List.append_cancel_left hrest)
  rw [hf]
  exact ⟨rfl, rfl⟩

/-! ## The text of a number -/

/-- The units of a finite number are its magnitude rounded to nearest. -/
theorem exists_fixedUnits (h : x.rational? = some q) :
    ∃ units : Nat, NearestInteger (|q| * 10 ^ places) units ∧
      x.fixedText.toList = signText x.signBit ++ (fixedMagnitude units).toList := by
  unfold rational? at h
  split at h
  · rename_i sign m e hdatum
    cases h
    have habs : |(if sign then -1 else 1) * ((m : ℚ) * 2 ^ e)| = m * 2 ^ e := by
      rw [abs_mul, abs_of_nonneg (a := (m : ℚ) * 2 ^ e) (by positivity)]
      cases sign <;> simp
    refine ⟨fixedUnits m e, ?_, ?_⟩
    · have hscaled : (m : ℚ) * 2 ^ e * 10 ^ places =
          (m * 10 ^ places : Nat) / (1 : Nat) / 2 ^ (-e) := by
        rw [Nat.cast_one, div_one, zpow_neg, div_inv_eq_mul]
        push_cast
        ring
      rw [habs, hscaled]
      exact nearestInteger_roundScaled one_pos (-e)
    · rw [signBit_of_datum hdatum, fixedText, hdatum]
      cases sign <;> simp [signText]
  · cases h

/-- Taking off zeros ends at the point, and taking off points at the whole part. -/
theorem trimmed_pointed {whole fraction : List Char} (hwhole : Text.Whole whole)
    (hfraction : Fraction fraction) (before : List Char) (n : Nat) :
    trimmed (before ++ (whole ++ '.' :: (fraction ++ List.replicate n '0'))) =
      before ++ (whole ++ pointed fraction) := by
  have hpoint : ∀ (front : List Char) {digits : List Char}, digits ≠ [] → Text.Digits digits →
      (front ++ digits).getLast? ≠ some '.' := by
    intro front digits hne hdigits hlast
    rw [List.getLast?_append_of_ne_nil _ hne] at hlast
    exact absurd (hdigits '.' (List.mem_of_getLast? hlast)) (by decide)
  have hzeros : ∀ c ∈ List.replicate n '0', (c == '0') = true := fun c hc =>
    beq_iff_eq.mpr (List.eq_of_mem_replicate hc)
  have hsplit : before ++ (whole ++ '.' :: (fraction ++ List.replicate n '0')) =
      (before ++ whole ++ ['.']) ++ fraction ++ List.replicate n '0' := by simp
  rw [trimmed, hsplit, Text.rdropWhile_append_of_pos _ hzeros]
  by_cases hne : fraction = []
  · subst hne
    rw [List.append_nil, Text.rdropWhile_beq_eq_self (c := '0') (by simp),
      Text.rdropWhile_append_of_pos _ (by simp),
      Text.rdropWhile_beq_eq_self (hpoint before hwhole.nonempty hwhole.all)]
    simp [pointed]
  · have hlast : ((before ++ whole ++ ['.']) ++ fraction).getLast? ≠ some '0' := by
      rw [List.getLast?_append_of_ne_nil _ hne]
      exact hfraction.last
    rw [Text.rdropWhile_beq_eq_self hlast, Text.rdropWhile_beq_eq_self (hpoint _ hne hfraction.all)]
    obtain ⟨c, rest, rfl⟩ := List.exists_cons_of_ne_nil hne
    simp [pointed]

/-- The text of a finite number is the one numeral of its sign bit and of its magnitude rounded to
    eight places, with ties to even.  It is what is left of the numeral with all eight digits when
    the zeros at the end, and then a point, are taken off; sign and whole part stay as they are.
    Numbers have the same text exactly if they have the same sign bit and are rounded alike. -/
theorem fixedText_canonical (h : x.rational? = some q) :
    ∃ units : Nat, NearestInteger (|q| * 10 ^ 8) units ∧
      (∀ text : String,
        Numeral text.toList x.signBit (units / 10 ^ 8) ↔ text = x.fixedText) ∧
      (∃ whole digits, Text.Whole whole ∧ Text.Digits digits ∧ digits.length = 8 ∧
        Text.value (whole ++ digits) = units ∧
        x.fixedText.toList = trimmed (signText x.signBit ++ (whole ++ '.' :: digits)) ∧
        signText x.signBit ++ whole <+: x.fixedText.toList) ∧
      ∀ (y : Binary64) r, y.rational? = some r → (x.fixedText = y.fixedText ↔
        x.signBit = y.signBit ∧ NearestInteger (|r| * 10 ^ 8) units) := by
  obtain ⟨units, hunits, htext⟩ := exists_fixedUnits h
  refine ⟨units, hunits, ?_, ⟨Nat.toDigits 10 (units / 10 ^ places), paddedDigits units,
    .toDigits _, digits_paddedDigits units, length_paddedDigits units, ?_, ?_, ?_⟩, ?_⟩
  · intro text
    rw [← String.toList_inj, htext]
    exact numeral_iff text.toList x.signBit units
  · rw [Text.value_append, Text.value_toDigits, length_paddedDigits, value_paddedDigits,
      Nat.div_add_mod']
  · rw [htext, toList_fixedMagnitude, paddedDigits_eq_fraction]
    exact (trimmed_pointed (.toDigits _) (fraction_fractionDigits units) _ _).symm
  · rw [htext, toList_fixedMagnitude, ← List.append_assoc]
    exact List.prefix_append _ _
  · intro y r hr
    obtain ⟨others, hothers, htext'⟩ := exists_fixedUnits hr
    have hx := (numeral_iff x.fixedText.toList x.signBit units).mpr htext
    have hy := (numeral_iff y.fixedText.toList y.signBit others).mpr htext'
    constructor
    · intro heq
      rw [← heq] at hy
      obtain ⟨hsign, hvalue⟩ := hx.unique hy
      have hunits' : (units : ℚ) = others := (div_left_inj' (by positivity)).mp hvalue
      rw [Nat.cast_inj.mp hunits']
      exact ⟨hsign, hothers⟩
    · rintro ⟨hsign, hnearest⟩
      have heq : (units : ℤ) = others := hnearest.unique hothers
      rw [← String.toList_inj, htext, htext', hsign, Nat.cast_inj.mp heq]

/-- A tie in the ninth place goes down to the even digit. -/
theorem fixedText_canonical_tie :
    (⟨0xBF60000000000000⟩ : Binary64).rational? = some (-1 / 512) ∧
      (⟨0xBF60000000000000⟩ : Binary64).fixedText = "-0.00195312" := by
  have hdatum : (⟨0xBF60000000000000⟩ : Binary64).datum = .finite true 4503599627370496 (-61) := by
    decide
  have hx : (⟨0xBF60000000000000⟩ : Binary64).rational? = some (-1 / 512) := by
    rw [rational?, hdatum]
    norm_num
  obtain ⟨units, hunits, hnumeral, -⟩ := fixedText_canonical hx
  have hrounded : NearestInteger (|(-1 / 512 : ℚ)| * 10 ^ 8) 195312 := by
    apply NearestInteger.of_le_half
    · norm_num [abs_div, abs_of_pos]
    · intro _
      decide
  have hcount : units = 195312 := by exact_mod_cast hunits.unique hrounded
  refine ⟨hx, ((hnumeral "-0.00195312").mp ?_).symm⟩
  rw [signBit_of_datum hdatum, hcount]
  refine ⟨['0'], ['0', '0', '1', '9', '5', '3', '1', '2'], .toDigits 0, ⟨?_, ?_, ?_⟩, rfl, ?_⟩
  · decide
  · have hall : ['0', '0', '1', '9', '5', '3', '1', '2'].all Char.isDigit = true := rfl
    exact List.all_eq_true.mp hall
  · decide
  · have hvalue : Text.value (['0'] ++ ['0', '0', '1', '9', '5', '3', '1', '2']) = 195312 := rfl
    rw [hvalue]
    norm_num

end StackMachine.Binary64
