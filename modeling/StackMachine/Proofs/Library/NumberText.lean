import StackMachine.Library.Call
import StackMachine.Proofs.Binary64.FixedText

/-!
# Numbers read from their text

A number that eight decimal places are enough for, an infinity and a NaN are read from their text as
what they were.  `Library.parse_toText` says it of the functions of the library, with any white
space around the text.
-/

namespace StackMachine

namespace Binary64

variable {x : Binary64} {q : ℚ} {text : List Char} {negative : Bool} {units : Nat}

theorem digitsValue_eq_value (digits : List Char) : digitsValue digits = Text.value digits :=
  digitsValue_eq_foldl digits

theorem splitSign_signText {whole : List Char} (hwhole : Text.Whole whole) (after : List Char) :
    splitSign (signText negative ++ (whole ++ after)) = (negative, whole ++ after) := by
  cases negative with
  | true => rfl
  | false =>
    obtain ⟨c, rest, rfl⟩ := List.exists_cons_of_ne_nil hwhole.nonempty
    have hc : c ≠ '-' ∧ c ≠ '+' :=
      Text.forall_isDigit (P := fun c => c ≠ '-' ∧ c ≠ '+') (by decide)
        (hwhole.all c List.mem_cons_self)
    simp [signText, splitSign, hc]

/-- A numeral is none of the words for an infinity or a NaN. -/
theorem read?_signText {whole : List Char} (hwhole : Text.Whole whole) (after : List Char) :
    read? (signText negative ++ (whole ++ after)) = readDigits? negative (whole ++ after) := by
  obtain ⟨c, rest, rfl⟩ := List.exists_cons_of_ne_nil hwhole.nonempty
  have hc : c.toLower ≠ 'i' ∧ c.toLower ≠ 'n' :=
    Text.forall_isDigit (P := fun c => c.toLower ≠ 'i' ∧ c.toLower ≠ 'n') (by decide)
      (hwhole.all c List.mem_cons_self)
  unfold read?
  rw [splitSign_signText hwhole]
  simp [hc]

theorem readDigits?_pointed {whole fraction : List Char} (hwhole : Text.Whole whole)
    (hfraction : Text.Digits fraction) :
    readDigits? negative (whole ++ pointed fraction) =
      some (ofDecimal negative (whole ++ fraction) (-fraction.length)) := by
  unfold readDigits?
  rw [takeWhile_isDigit_pointed hwhole.all, dropWhile_isDigit_pointed hwhole.all]
  have htake : fraction.takeWhile Char.isDigit = fraction :=
    List.takeWhile_eq_self_iff.mpr hfraction
  have hdrop : fraction.dropWhile Char.isDigit = [] := List.dropWhile_eq_nil_iff.mpr hfraction
  cases fraction with
  | nil => simp [pointed, hwhole.nonempty, readExponent?]
  | cons c rest => simp [pointed, hwhole.nonempty, htake, hdrop, readExponent?]

/-! ## Exact decimals -/

theorem value_dropWhile_zero (digits : List Char) :
    Text.value (digits.dropWhile (· == '0')) = Text.value digits := by
  induction digits with
  | nil => rfl
  | cons c digits ih =>
    by_cases hc : c = '0'
    · rw [hc, List.dropWhile_cons_of_pos rfl, ih, Text.value_cons, Nat.sub_self, Nat.zero_mul,
        Nat.zero_add]
    · rw [List.dropWhile_cons_of_neg (by simpa using hc)]

/-- The first significant digit gives a lower bound of the value. -/
theorem le_value_of_significant {c : Char} {rest : List Char} (hc : c.isDigit = true)
    (hne : c ≠ '0') : 10 ^ rest.length ≤ Text.value (c :: rest) := by
  have hpos : 0 < c.toNat - '0'.toNat := by
    apply Nat.pos_of_ne_zero
    intro hzero
    apply hne
    rw [← Text.digitChar_of_isDigit hc, hzero]
    rfl
  rw [Text.value_cons]
  have := Nat.mul_le_mul_right (10 ^ rest.length) hpos
  omega

theorem magnitude_infinityPattern : magnitude infinityPattern = 2 ^ 1024 := by
  have hsplit : infinityPattern = 2045 * 2 ^ 52 + 2 ^ 53 := by decide
  have hexp : ((2045 : Nat) : ℤ) - 1074 = (971 : Nat) := by norm_num
  rw [hsplit, magnitude_scaled le_rfl (Or.inr (by decide)), hexp, zpow_natCast, Nat.cast_pow,
    Nat.cast_ofNat, ← pow_add]

/-- The largest finite number has 309 digits. -/
theorem magnitude_lt (h : x.pattern < infinityPattern) : magnitude x.pattern < 10 ^ 309 := by
  have hbase : (2 : ℚ) ^ 128 < 4 * 10 ^ 38 := by norm_num
  have hfour : (4 : ℚ) ^ 8 < 10 ^ 5 := by norm_num
  calc magnitude x.pattern < magnitude infinityPattern := strictMono_magnitude h
    _ = (2 ^ 128) ^ 8 := by rw [magnitude_infinityPattern, ← pow_mul]
    _ < (4 * 10 ^ 38) ^ 8 := pow_lt_pow_left₀ hbase (by positivity) (by decide)
    _ = 4 ^ 8 * 10 ^ 304 := by rw [mul_pow, ← pow_mul]
    _ < 10 ^ 5 * 10 ^ 304 := mul_lt_mul_of_pos_right hfour (by positivity)
    _ = 10 ^ 309 := by rw [← pow_add]

/-- A magnitude with places behind the point has at most 309 digits in front of it. -/
theorem length_of_significant {c : Char} {rest : List Char} {k : Nat}
    (hx : x.pattern < infinityPattern) (hc : c.isDigit = true) (hne : c ≠ '0')
    (h : magnitude x.pattern = Text.value (c :: rest) / 10 ^ k) : rest.length < 309 + k := by
  have hlt := magnitude_lt hx
  rw [h, div_lt_iff₀ (by positivity), ← pow_add] at hlt
  have hlt' : Text.value (c :: rest) < 10 ^ (309 + k) := by exact_mod_cast hlt
  exact (Nat.pow_lt_pow_iff_right (by decide)).mp ((le_value_of_significant hc hne).trans_lt hlt')

/-- A decimal that is the magnitude of a number, with few digits behind the point, is read as that
    number. -/
theorem ofDecimal_of_eq {digits : List Char} {k : Nat} (hx : x.pattern < infinityPattern)
    (hdigits : Text.Digits digits) (hk : k ≤ places)
    (h : magnitude x.pattern = Text.value digits / 10 ^ k) :
    ofDecimal x.signBit digits (-k) = x := by
  have hplaces : places = 8 := rfl
  unfold ofDecimal
  dsimp only
  rw [digitsValue_eq_value]
  rw [← value_dropWhile_zero] at h
  have hdigits' : Text.Digits (digits.dropWhile (· == '0')) := fun c hc =>
    hdigits c ((List.dropWhile_suffix _).subset hc)
  have hnot := List.head?_dropWhile_not (· == '0') digits
  generalize digits.dropWhile (· == '0') = significant at *
  cases significant with
  | nil =>
    have hzero : x.pattern = 0 := by
      apply strictMono_magnitude.injective
      rw [h, magnitude_zero]
      simp [Text.value]
    rw [List.isEmpty_nil, Bool.true_or, if_pos rfl, ← hzero, ofPattern_pattern]
  | cons c rest =>
    have hlow : ¬-(k : ℤ) + (rest.length + 1 : Nat) < -330 := by omega
    have hhigh : ¬310 < -(k : ℤ) + (rest.length + 1 : Nat) := by
      have hc : c.isDigit = true := hdigits' c List.mem_cons_self
      have hlength := length_of_significant hx hc (by simpa using hnot) h
      omega
    rw [List.isEmpty_cons, List.length_cons, Bool.false_or, if_neg (by simpa using hlow),
      if_neg hhigh]
    have hup : (-(k : ℤ)).toNat = 0 := by omega
    have hdown : (-(-(k : ℤ))).toNat = k := by omega
    rw [hup, hdown, Nat.pow_zero, Nat.mul_one]
    apply ofRatio_of_eq (by positivity) hx
    rw [h, Nat.cast_pow, Nat.cast_ofNat]

/-- The numeral of a number's exact magnitude is read as the number. -/
theorem read?_numeral (hx : x.rational? = some q) (h : Numeral text x.signBit |q|) :
    read? text = some x := by
  obtain ⟨whole, fraction, hwhole, hfraction, rfl, hvalue⟩ := h
  rw [read?_signText hwhole, readDigits?_pointed hwhole hfraction.all]
  rw [abs_of_rational? hx] at hvalue
  rw [ofDecimal_of_eq (rational?_eq_some_iff.mp hx).1 (hwhole.all.append hfraction.all)
    hfraction.length_le hvalue]

/-! ## Texts of numbers -/

/-- The multiples of `2 ^ -8` need no more than eight decimal places. -/
theorem numeral_of_multiple (hx : x.rational? = some q) {k : ℤ} (hq : q = k / 2 ^ 8) :
    Numeral x.fixedText.toList x.signBit |q| := by
  obtain ⟨units, hunits, htext⟩ := exists_fixedUnits hx
  have hscaled : |q| * 10 ^ places = (|k| * 390625 : ℤ) := by
    rw [hq, abs_div, abs_of_pos (a := (2 : ℚ) ^ 8) (by positivity), places]
    push_cast
    ring
  have hexact : |q| = units / 10 ^ places := by
    have hself : NearestInteger (|q| * 10 ^ places) (|k| * 390625) := by
      rw [hscaled]
      exact .of_le_half (by simp) (by simp)
    rw [eq_div_iff (by positivity), hscaled, hself.unique hunits, Int.cast_natCast]
  rw [hexact, numeral_iff]
  exact htext

theorem read?_fixedText_of_infinite {negative : Bool} (h : x.datum = .infinite negative) :
    read? x.fixedText.toList = some x := by
  have hx := eq_infinity_of_datum h
  rw [fixedText, h]
  cases negative with
  | true =>
    rw [hx]
    rfl
  | false =>
    rw [hx]
    rfl

theorem read?_fixedText_of_nan (h : x.isNaN = true) : read? x.fixedText.toList = some nan := by
  have hdatum : x.datum = .nan := by simpa [isNaN] using h
  rw [fixedText, hdatum]
  rfl

theorem not_isBlank_of_digits {digits : List Char} (h : Text.Digits digits) {c : Char}
    (hc : c ∈ digits) : Text.isBlank c = false :=
  Text.forall_isDigit (P := fun c => Text.isBlank c = false) (by decide) (h c hc)

theorem not_isBlank_of_mem_signText {c : Char} (hc : c ∈ signText negative) :
    Text.isBlank c = false := by
  have hminus : c = '-' := by
    cases negative
    · cases hc
    · exact List.mem_singleton.mp hc
  rw [hminus]
  decide

theorem not_isBlank_of_mem_pointed {fraction : List Char} (h : Text.Digits fraction) {c : Char}
    (hc : c ∈ pointed fraction) : Text.isBlank c = false := by
  cases fraction with
  | nil => cases hc
  | cons d rest =>
    rcases List.mem_cons.mp hc with rfl | hc
    · decide
    · exact not_isBlank_of_digits h hc

/-- Infinities and NaNs have words for texts. -/
theorem fixedText_of_rational?_eq_none (hx : x.rational? = none) :
    x.fixedText = "NaN" ∨ x.fixedText = "-Inf" ∨ x.fixedText = "+Inf" := by
  have hdatum := datum_of_rational?_eq_none hx
  split at hdatum
  · rw [fixedText, hdatum]
    cases x.signBit
    · exact Or.inr (Or.inr rfl)
    · exact Or.inr (Or.inl rfl)
  · rw [fixedText, hdatum]
    exact Or.inl rfl

/-- There is no white space in the text of a number. -/
theorem not_isBlank_of_mem_fixedText (x : Binary64) {c : Char} (hc : c ∈ x.fixedText.toList) :
    Text.isBlank c = false := by
  cases hx : x.rational? with
  | some q =>
    obtain ⟨units, -, htext⟩ := exists_fixedUnits hx
    rw [htext, toList_fixedMagnitude, List.mem_append, List.mem_append] at hc
    rcases hc with hc | hc | hc
    · exact not_isBlank_of_mem_signText hc
    · exact not_isBlank_of_digits (.toDigits _) hc
    · exact not_isBlank_of_mem_pointed (fraction_fractionDigits units).all hc
  | none =>
    rcases fixedText_of_rational?_eq_none hx with h | h | h
    · have hc' : c = 'N' ∨ c = 'a' ∨ c = 'N' := by simpa [h] using hc
      rcases hc' with rfl | rfl | rfl <;> decide
    · have hc' : c = '-' ∨ c = 'I' ∨ c = 'n' ∨ c = 'f' := by simpa [h] using hc
      rcases hc' with rfl | rfl | rfl | rfl <;> decide
    · have hc' : c = '+' ∨ c = 'I' ∨ c = 'n' ∨ c = 'f' := by simpa [h] using hc
      rcases hc' with rfl | rfl | rfl | rfl <;> decide

theorem fixedText_ne_nil (x : Binary64) : x.fixedText.toList ≠ [] := by
  cases hx : x.rational? with
  | some q =>
    obtain ⟨units, -, htext⟩ := exists_fixedUnits hx
    rw [htext, toList_fixedMagnitude]
    simp [Nat.toDigits_ne_nil]
  | none =>
    rcases fixedText_of_rational?_eq_none hx with h | h | h <;> rw [h] <;> decide

/-- White space around the text of a number does not count. -/
theorem parse?_surrounded (x : Binary64) {before after : String}
    (hbefore : ∀ c ∈ before.toList, Text.isBlank c = true)
    (hafter : ∀ c ∈ after.toList, Text.isBlank c = true) :
    parse? (before ++ x.fixedText ++ after) = read? x.fixedText.toList := by
  unfold parse?
  rw [String.toList_append, String.toList_append,
    Text.trimBlank_surrounded hbefore hafter (fixedText_ne_nil x)]
  · exact fun c hc => not_isBlank_of_mem_fixedText x (List.mem_of_head? hc)
  · exact fun c hc => not_isBlank_of_mem_fixedText x (List.mem_of_getLast? hc)

end Binary64

namespace Library

theorem parse_eq_ok (st : Store) {text : String} {x : Binary64}
    (h : Binary64.parse? text = some x) :
    callBuiltin (.text text) [] .parse st = .ok (.number x) st := by
  have hreceiver : receiverText "parse" (.text text) = pure text := rfl
  have hparse : callBuiltin (.text text) [] .parse st = parse (.text text) st := rfl
  rw [hparse, parse, hreceiver, pure_bind, h]
  rfl

/-- The text of a number, with any white space around it, is read as the number itself if that is
    infinite or a multiple of `2 ^ -8`, the zeros and their signs included, and as a NaN if that is
    one. -/
theorem parse_toText (st : Store) (site : Value) (x : Binary64) (before after : String)
    (hbefore : ∀ c ∈ before.toList, Text.isBlank c = true)
    (hafter : ∀ c ∈ after.toList, Text.isBlank c = true) :
    ∃ text, callBuiltin site [.number x] .toText st = .ok (.text text) st ∧
      (((∃ negative, x.datum = .infinite negative) ∨
          ∃ k : ℤ, x.rational? = some ((k : ℚ) / 2 ^ 8)) →
        callBuiltin (.text (before ++ text ++ after)) [] .parse st = .ok (.number x) st) ∧
      (x.isNaN → ∃ y, y.isNaN ∧
        callBuiltin (.text (before ++ text ++ after)) [] .parse st = .ok (.number y) st) := by
  have htrim : Binary64.parse? (before ++ x.fixedText ++ after) =
      Binary64.read? x.fixedText.toList := Binary64.parse?_surrounded x hbefore hafter
  refine ⟨x.fixedText, rfl, ?_, ?_⟩
  · intro hcases
    apply parse_eq_ok st
    rw [htrim]
    rcases hcases with ⟨negative, hinfinite⟩ | ⟨k, hx⟩
    · exact Binary64.read?_fixedText_of_infinite hinfinite
    · exact Binary64.read?_numeral hx (Binary64.numeral_of_multiple hx rfl)
  · intro hnan
    refine ⟨Binary64.nan, by decide, parse_eq_ok st ?_⟩
    rw [htrim, Binary64.read?_fixedText_of_nan hnan]

/-- Eight places behind the point, and white space of two kinds around the text. -/
theorem parse_toText_fraction :
    let x : Binary64 := ⟨0xC008080000000000⟩
    x.rational? = some (-769 / 2 ^ 8) ∧
      ∃ text, callBuiltin .null [.number x] .toText default = .ok (.text text) default ∧
        callBuiltin (.text ("\n" ++ text ++ "\u3000")) [] .parse default =
          .ok (.number x) default := by
  intro x
  have hdatum : x.datum = .finite true 6764195534077952 (-51) := by decide
  have hx : x.rational? = some (-769 / 2 ^ 8) := by
    rw [Binary64.rational?, hdatum]
    norm_num
  obtain ⟨text, htext, hparse, -⟩ := parse_toText default .null x "\n" "\u3000"
    (by simp [Text.isBlank]) (by simp [Text.isBlank])
  exact ⟨hx, text, htext, hparse (Or.inr ⟨-769, by rw [hx]; norm_num⟩)⟩

end Library

end StackMachine
