/-
The text of a number determines the number.

`Decimal.numeral` reads the value of a decimal off its text, wherever the point stands and with or without an exponent.
`Decimal.Layout.numeral_digitsText` says that every layout writes a decimal so that its value is read, and the value of
the shortest decimal determines the number it is written for. With the sign and the three words for what is not finite,
no two floating-point numbers have the same text (`Syntax.write_injective`), and no two whole numbers have
(`Decimal.intText?_injective`).
-/
import LevelScript.Decimal.Reading
import LevelScript.Proofs.Scanning
import LevelScript.Proofs.ShortestDecimals

namespace LevelScript

open Text

/-! ## Runs of digits -/

theorem Text.digitsValue_append (front back : List Char) :
    digitsValue (front ++ back) = digitsValue front * 10 ^ back.length + digitsValue back := by
  have h : digitsValue (front ++ back) = Nat.ofDigitChars 10 back (digitsValue front) := Nat.ofDigitChars_append 0
  rw [h, Nat.ofDigitChars_eq_ofDigitChars_zero, Nat.mul_comm]
  rfl

theorem Text.digitsValue_zeros (count : Nat) : digitsValue (List.replicate count '0') = 0 := by
  induction count with
  | zero => rfl
  | succ count ih =>
    rw [List.replicate_succ', digitsValue_append, ih]
    rfl

namespace Decimal

theorem digitsValue_padded (width n : Nat) : digitsValue (padded width n) = n := by
  rw [padded, digitsValue_append, digitsValue_zeros, Nat.zero_mul, Nat.zero_add]
  exact Nat.ofDigitChars_ten_toDigits

theorem length_padded {width n : Nat} (hwidth : 0 < width) (h : n < 10 ^ width) : (padded width n).length = width := by
  have hle := (Nat.length_toDigits_le_iff (by norm_num) hwidth).2 h
  simp only [padded, List.length_append, List.length_replicate]
  omega

theorem isDigit_replicate {count : Nat} {c : Char} (h : c ∈ List.replicate count '0') : c.isDigit = true := by
  rw [List.eq_of_mem_replicate h]
  rfl

theorem isDigit_of_mem_padded {width n : Nat} {c : Char} (h : c ∈ padded width n) : c.isDigit = true := by
  rcases List.mem_append.1 h with hzero | hdigit
  · exact isDigit_replicate hzero
  · exact Nat.isDigit_of_mem_toDigits (by norm_num) (by norm_num) hdigit

theorem padded_ne_nil (width n : Nat) : padded width n ≠ [] := by
  simp [padded, Nat.toDigits_ne_nil]

/-! ## Values of texts -/

/-- the number that a decimal without a sign stands for: digits, a point and more digits, and an exponent; the last two
may be missing -/
def numeral (text : List Char) : ℚ :=
  let whole := text.takeWhile Char.isDigit
  let rest := text.dropWhile Char.isDigit
  let (fraction, tail) := match rest with
    | '.' :: more => (more.takeWhile Char.isDigit, more.dropWhile Char.isDigit)
    | _ => ([], rest)
  digitsValue (whole ++ fraction) * 10 ^ ((readExponent? tail).getD 0 - fraction.length)

/-- what may follow the digits of a decimal: an exponent or nothing -/
def Tail (tail : List Char) : Prop := ∀ c ∈ tail.head?, c = 'e'

theorem Tail.stops {tail : List Char} (h : Tail tail) : ∀ c ∈ tail.head?, c.isDigit = false := by
  intro c hc
  rw [h c hc]
  rfl

variable {whole fraction tail digits : List Char}

theorem numeral_point (hwhole : ∀ c ∈ whole, c.isDigit = true) (hfraction : ∀ c ∈ fraction, c.isDigit = true)
    (htail : Tail tail) : numeral (whole ++ '.' :: (fraction ++ tail)) =
      digitsValue (whole ++ fraction) * 10 ^ ((readExponent? tail).getD 0 - fraction.length) := by
  have hpoint : ∀ c ∈ ('.' :: (fraction ++ tail)).head?, c.isDigit = false := by simp
  obtain ⟨hfront, hrest⟩ := Syntax.takeWhile_run hwhole hpoint
  obtain ⟨hdigits, hbehind⟩ := Syntax.takeWhile_run hfraction htail.stops
  simp only [numeral, hfront, hrest, hdigits, hbehind]

theorem numeral_whole (hwhole : ∀ c ∈ whole, c.isDigit = true) (htail : Tail tail) :
    numeral (whole ++ tail) = digitsValue whole * 10 ^ (readExponent? tail).getD 0 := by
  obtain ⟨hfront, hrest⟩ := Syntax.takeWhile_run hwhole htail.stops
  simp only [numeral, hfront, hrest]
  cases tail with
  | nil => simp
  | cons c tail =>
    obtain rfl := htail c rfl
    simp

/-- digits with a point are worth their number, with the point put where it stands -/
theorem numeral_pointed (hdigits : ∀ c ∈ digits, c.isDigit = true) (htail : Tail tail) (count : Nat) :
    numeral (pointed digits count ++ tail) =
      digitsValue digits * 10 ^ ((readExponent? tail).getD 0 + count - digits.length) := by
  have htake : ∀ c ∈ digits.take count ++ List.replicate (count - digits.length) '0', c.isDigit = true := by
    intro c hc
    exact (List.mem_append.1 hc).elim (fun h => hdigits c (List.mem_of_mem_take h)) isDigit_replicate
  rw [pointed, List.append_assoc, List.cons_append]
  split
  case isTrue hle =>
    -- zeros fill the digits up to the point, and one stands behind it
    obtain ⟨zeros, hzeros⟩ := Nat.exists_eq_add_of_le hle
    rw [numeral_point htake (by simp) htail, List.take_of_length_le hle, hzeros, Nat.add_sub_cancel_left,
      List.append_assoc, ← List.replicate_succ', digitsValue_append, digitsValue_zeros, List.length_replicate,
      Nat.add_zero, List.length_singleton]
    push_cast
    rw [mul_assoc, ← zpow_natCast, ← zpow_add₀ (by norm_num)]
    congr 2
    push_cast
    ring
  case isFalse hlt =>
    rw [numeral_point htake (fun c hc => hdigits c (List.mem_of_mem_drop hc)) htail,
      Nat.sub_eq_zero_of_le (Nat.le_of_not_le hlt), List.replicate_zero, List.append_nil, List.take_append_drop,
      List.length_drop, Nat.cast_sub (Nat.le_of_not_le hlt)]
    congr 2
    ring

/-! ## Texts of decimals -/

def exponentText (places : Nat) (scale : Int) : List Char :=
  'e' :: (if scale < 0 then '-' else '+') :: padded places scale.natAbs

theorem tail_exponentText (places : Nat) (scale : Int) : Tail (exponentText places scale) := by
  simp [Tail, exponentText]

theorem readExponent?_exponentText (places : Nat) (scale : Int) :
    readExponent? (exponentText places scale) = some scale := by
  have hdigits : (padded places scale.natAbs).all Char.isDigit = true :=
    List.all_eq_true.2 fun _ => isDigit_of_mem_padded
  have hsome : (padded places scale.natAbs).isEmpty = false := by
    simpa using padded_ne_nil places scale.natAbs
  rw [exponentText]
  split
  case isTrue hneg =>
    simp only [readExponent?, splitSign, hsome, hdigits, digitsValue_padded, signed]
    simp [abs_of_neg hneg]
  case isFalse hpos =>
    simp only [readExponent?, splitSign, hsome, hdigits, digitsValue_padded, signed]
    simp [abs_of_nonneg (not_lt.1 hpos)]

/-- every layout writes a decimal so that its value is read -/
theorem Layout.numeral_digitsText (layout : Layout) {s : Scientific} (hplaces : 0 < s.places)
    (hdigits : s.digits < 10 ^ s.places) : numeral (layout.digitsText s) = s.value := by
  have hlength := length_padded hplaces hdigits
  have hall : ∀ c ∈ padded s.places s.digits, c.isDigit = true := fun _ => isDigit_of_mem_padded
  have hnone : Tail [] := by simp [Tail]
  have hnoExponent : (readExponent? []).getD 0 = 0 := rfl
  have hexponent : (readExponent? (exponentText layout.exponentPlaces s.scale)).getD 0 = s.scale := by
    rw [readExponent?_exponentText]
    rfl
  rw [digitsText, Scientific.value]
  split
  case isTrue =>
    split
    case isTrue hwhole =>
      rw [← List.append_nil (pointed _ _), numeral_pointed hall hnone, digitsValue_padded, hlength, hnoExponent]
      congr 2
      push_cast
      omega
    case isFalse hfraction =>
      have hzeros : ∀ c ∈ List.replicate (-s.scale - 1).toNat '0' ++ padded s.places s.digits, c.isDigit = true :=
        fun c hc => (List.mem_append.1 hc).elim isDigit_replicate (hall c)
      have h := numeral_point (by simp : ∀ c ∈ ['0'], c.isDigit = true) hzeros hnone
      rw [List.append_nil, hnoExponent] at h
      refine h.trans ?_
      rw [← List.append_assoc, digitsValue_append, digitsValue_padded, List.singleton_append, ← List.replicate_succ,
        digitsValue_zeros, List.length_append, hlength, List.length_replicate, Nat.zero_mul, Nat.zero_add]
      congr 2
      push_cast
      omega
  case isFalse =>
    change numeral (_ ++ exponentText layout.exponentPlaces s.scale) = _
    split
    case isTrue hone =>
      rw [numeral_whole hall (tail_exponentText _ _), digitsValue_padded, hexponent, ← hlength, hone.1]
      congr 2
      simp
    case isFalse =>
      rw [numeral_pointed hall (tail_exponentText _ _), digitsValue_padded, hlength, hexponent]
      congr 2
      push_cast
      ring

/-! ## Texts of magnitudes -/

/-- a number as its pattern gives it, zero included -/
def Magnitude (mantissa : Nat) (exponent : Int) : Prop :=
  mantissa = 0 ∧ exponent = minExponent ∨ Reduced mantissa exponent

def Layout.magnitudeText (layout : Layout) (mantissa : Nat) (exponent : Int) : List Char :=
  if mantissa = 0 then ['0', '.', '0'] else layout.digitsText (shortest mantissa exponent)

variable {layout : Layout} {mantissa other : Nat} {exponent otherExponent : Int}

theorem Layout.numeral_magnitudeText_zero : numeral (layout.magnitudeText 0 exponent) = 0 := by
  rw [magnitudeText, if_pos rfl]
  simp [numeral, digitsValue]

theorem Reduced.numeral_magnitudeText (h : Reduced mantissa exponent) :
    numeral (layout.magnitudeText mantissa exponent) = (shortest mantissa exponent).value := by
  obtain ⟨hplaces, hdigits, -⟩ := h.shortest_spec
  rw [Layout.magnitudeText, if_neg h.pos.ne', layout.numeral_digitsText hplaces hdigits]

/-- no two numbers have one text -/
theorem Layout.magnitudeText_injective (h : Magnitude mantissa exponent) (h' : Magnitude other otherExponent)
    (htext : layout.magnitudeText mantissa exponent = layout.magnitudeText other otherExponent) :
    mantissa = other ∧ exponent = otherExponent := by
  have hvalue := congrArg numeral htext
  rcases h with ⟨rfl, rfl⟩ | h <;> rcases h' with ⟨rfl, rfl⟩ | h'
  · exact ⟨rfl, rfl⟩
  · rw [numeral_magnitudeText_zero, h'.numeral_magnitudeText] at hvalue
    exact absurd hvalue h'.shortest_value_pos.ne
  · rw [numeral_magnitudeText_zero, h.numeral_magnitudeText] at hvalue
    exact absurd hvalue h.shortest_value_pos.ne'
  · rw [h.numeral_magnitudeText, h'.numeral_magnitudeText] at hvalue
    exact shortest_value_injective h h' hvalue

def DigitFirst (text : List Char) : Prop := ∃ c rest, text = c :: rest ∧ c.isDigit = true

theorem digitFirst_pointed (hdigits : ∀ c ∈ digits, c.isDigit = true) (hne : digits ≠ []) (count : Nat) :
    DigitFirst (pointed digits (count + 1)) := by
  obtain ⟨c, digits, rfl⟩ := List.exists_cons_of_ne_nil hne
  exact ⟨c, _, rfl, hdigits c List.mem_cons_self⟩

/-- the text of a number starts with a digit -/
theorem Layout.digitFirst_magnitudeText (layout : Layout) (mantissa : Nat) (exponent : Int) :
    DigitFirst (layout.magnitudeText mantissa exponent) := by
  have hall (width n : Nat) : ∀ c ∈ padded width n, c.isDigit = true := fun _ => isDigit_of_mem_padded
  rw [magnitudeText, digitsText]
  split
  · exact ⟨'0', _, rfl, rfl⟩
  · dsimp only
    split
    · split
      · exact digitFirst_pointed (hall _ _) (padded_ne_nil _ _) _
      · exact ⟨'0', _, rfl, rfl⟩
    · split
      · obtain ⟨c, rest, hcons⟩ := List.exists_cons_of_ne_nil (padded_ne_nil (shortest mantissa exponent).places
          (shortest mantissa exponent).digits)
        exact ⟨c, _, by rw [hcons]; rfl, hall _ _ c (hcons ▸ List.mem_cons_self)⟩
      · obtain ⟨c, rest, hcons, hdigit⟩ := digitFirst_pointed (hall (shortest mantissa exponent).places
          (shortest mantissa exponent).digits) (padded_ne_nil _ _) 0
        exact ⟨c, _, by rw [hcons]; rfl, hdigit⟩

/-! ## Patterns of floating-point numbers -/

/-- the parts of a pattern: its sign, its exponent and its fraction -/
theorem bits_parts (bits : Nat) (h : bits < 2 ^ 64) :
    bits = bits / 2 ^ 63 % 2 * 2 ^ 63 + bits / 2 ^ 52 % 2 ^ 11 * 2 ^ 52 + bits % 2 ^ 52 := by
  omega

theorem Binary64.magnitude_of_ofBits {bits : Nat} {negative : Bool}
    (h : ofBits bits = .finite negative mantissa exponent) : Magnitude mantissa exponent := by
  have hfraction : bits % 2 ^ 52 < 2 ^ 52 := Nat.mod_lt _ (by norm_num)
  simp only [ofBits, Nat.pow_eq] at h
  split at h
  · split at h <;> cases h
  · split at h
    · cases h
      -- below the first power of two at the least exponent
      rcases Nat.eq_zero_or_pos (bits % 2 ^ 52) with hzero | hpos
      · exact .inl ⟨hzero, rfl⟩
      · exact .inr ⟨hpos, hfraction.trans (by norm_num), le_rfl, fun hlt => absurd hlt (lt_irrefl _)⟩
    · cases h
      exact .inr ⟨by positivity, by omega, by simp only [Int.ofNat_eq_natCast]; omega, fun _ => Nat.le_add_left _ _⟩

/-- the pattern of a number; one of the patterns without a number -/
def Binary64.pattern : Binary64 → Nat
  | .nan => 0x7ff8000000000000
  | .infinite negative => negative.toNat * 2 ^ 63 + 0x7ff * 2 ^ 52
  | .finite negative mantissa exponent =>
    negative.toNat * 2 ^ 63 +
      (if mantissa < 2 ^ 52 then mantissa else (exponent - minExponent).toNat * 2 ^ 52 + mantissa)

theorem toNat_decide_odd (n : Nat) : (decide (n % 2 = 1)).toNat = n % 2 := by
  rcases Nat.mod_two_eq_zero_or_one n with h | h <;> simp [h]

/-- a pattern is determined by the number that it stands for -/
theorem Binary64.pattern_ofBits {bits : Nat} (hlt : bits < 2 ^ 64) (hnan : ofBits bits ≠ .nan) :
    (ofBits bits).pattern = bits := by
  have hparts := bits_parts bits hlt
  have hfraction : bits % 2 ^ 52 < 2 ^ 52 := Nat.mod_lt _ (by norm_num)
  simp only [ofBits, Nat.pow_eq] at hnan ⊢
  split at hnan
  case isTrue hmax =>
    split at hnan
    case isFalse => exact absurd rfl hnan
    case isTrue hzero =>
      rw [if_pos hmax, if_pos hzero, pattern, toNat_decide_odd]
      rw [hmax, hzero] at hparts
      omega
  case isFalse hmax =>
    rw [if_neg hmax]
    split
    case isTrue hleast =>
      rw [pattern, toNat_decide_odd, if_pos hfraction]
      rw [hleast] at hparts
      omega
    case isFalse hnormal =>
      rw [pattern, toNat_decide_odd, if_neg (by omega), add_sub_cancel_left, Int.ofNat_eq_natCast]
      omega

/-- the pattern of what is no number has the greatest exponent and a fraction -/
theorem Binary64.nan_parts {bits : Nat} (h : ofBits bits = .nan) :
    bits / 2 ^ 52 % 2 ^ 11 = 0x7ff ∧ bits % 2 ^ 52 ≠ 0 := by
  simp only [ofBits, Nat.pow_eq] at h
  split at h
  case isTrue hmax =>
    split at h
    · cases h
    case isFalse hfraction => exact ⟨hmax, hfraction⟩
  case isFalse => split at h <;> cases h

/-- only one floating-point number is no number -/
theorem Binary64.toNat_toBits_of_nan {x : Float} (h : ofFloat x = .nan) : x.toBits.toNat = pattern .nan := by
  obtain ⟨⟨bits, hvalid⟩⟩ := x
  obtain ⟨hmax, hfraction⟩ := nan_parts (show ofBits bits.toNat = .nan from h)
  have hpacked : bits.toBitVec = Float.Model.UnpackedFloat.packedNaN .binary64 := by
    refine hvalid.eq_packedNaN (BitVec.eq_of_toNat_eq ?_) fun hzero => hfraction ?_
    · simp only [Float.Model.UnpackedFloat.unpackExponent, BitVec.toNat_cast, BitVec.extractLsb_toNat,
        UInt64.toNat_toBitVec, Nat.shiftRight_eq_div_pow]
      exact hmax
    · have hzero := congrArg BitVec.toNat hzero
      simp only [Float.Model.UnpackedFloat.unpackMantissa, BitVec.toNat_cast, BitVec.extractLsb_toNat,
        UInt64.toNat_toBitVec, Nat.shiftRight_eq_div_pow] at hzero
      simpa using hzero
  exact congrArg BitVec.toNat hpacked

theorem Binary64.ofFloat_injective : Function.Injective ofFloat := by
  intro x y h
  have hbits : x.toBits.toNat = y.toBits.toNat := by
    by_cases hnan : ofFloat x = .nan
    · rw [toNat_toBits_of_nan hnan, toNat_toBits_of_nan (h ▸ hnan)]
    · rw [← pattern_ofBits x.toBits.toNat_lt hnan, ← pattern_ofBits y.toBits.toNat_lt (fun hy => hnan (h.trans hy))]
      exact congrArg pattern h
  obtain ⟨⟨bits, _⟩⟩ := x
  obtain ⟨⟨bits', _⟩⟩ := y
  obtain rfl : bits = bits' := UInt64.toNat_inj.1 hbits
  rfl

/-! ## Texts of numbers -/

def Layout.infinityText (layout : Layout) (negative : Bool) : String :=
  if negative then "-" ++ layout.infinity else layout.infinity

def signedText (negative : Bool) (text : List Char) : List Char :=
  if negative then '-' :: text else text

theorem Layout.write_eq (layout : Layout) (x : Float) : layout.write x = match Binary64.ofFloat x with
    | .nan => layout.nan
    | .infinite negative => layout.infinityText negative
    | .finite negative mantissa exponent =>
      String.ofList (signedText negative (layout.magnitudeText mantissa exponent)) := rfl

/-- a text that starts with a digit behind its sign says which sign it has -/
theorem signedText_injective {negative negative' : Bool} {text text' : List Char}
    (h : DigitFirst text) (h' : DigitFirst text') (heq : signedText negative text = signedText negative' text') :
    negative = negative' ∧ text = text' := by
  obtain ⟨c, rest, rfl, hc⟩ := h
  obtain ⟨c', rest', rfl, hc'⟩ := h'
  have hminus : ('-' : Char).isDigit = false := rfl
  cases negative <;> cases negative' <;>
    simp only [signedText, Bool.false_eq_true, if_true, if_false, List.cons.injEq] at heq
  · exact ⟨rfl, by rw [heq.1, heq.2]⟩
  · rw [heq.1, hminus] at hc
    cases hc
  · rw [← heq.1, hminus] at hc'
    cases hc'
  · exact ⟨rfl, by rw [heq.2.1, heq.2.2]⟩

/-- the words for what is not finite are not taken for a number -/
theorem word_ne_signedText {word : String} (hword : word.toList.any Char.isDigit = false) {negative : Bool}
    {text : List Char} (h : DigitFirst text) : word ≠ String.ofList (signedText negative text) := by
  obtain ⟨c, rest, rfl, hc⟩ := h
  rintro rfl
  rw [String.toList_ofList, List.any_eq_false] at hword
  exact hword c (by cases negative <;> simp [signedText]) hc

/-! ## Texts in one line -/

theorem lineFeed_not_mem_padded (width n : Nat) : '\n' ∉ padded width n :=
  fun h => absurd (isDigit_of_mem_padded h) (by decide)

theorem lineFeed_not_mem_pointed (h : '\n' ∉ digits) (count : Nat) : '\n' ∉ pointed digits count := by
  have htake : '\n' ∉ digits.take count := fun hmem => h (List.mem_of_mem_take hmem)
  have hdrop : '\n' ∉ digits.drop count := fun hmem => h (List.mem_of_mem_drop hmem)
  rw [pointed]
  split <;> simp [htake, hdrop]

theorem Layout.lineFeed_not_mem_magnitudeText (layout : Layout) (mantissa : Nat) (exponent : Int) :
    '\n' ∉ layout.magnitudeText mantissa exponent := by
  have hpadded := lineFeed_not_mem_padded
  have hpointed (width n count : Nat) := lineFeed_not_mem_pointed (hpadded width n) count
  rw [magnitudeText, digitsText]
  split
  · decide
  · dsimp only
    split
    · split <;> simp [hpadded, hpointed]
    · split <;> split <;> simp [hpadded, hpointed]

end Decimal

namespace Syntax

open Decimal

/-- no two floating-point numbers have one text -/
theorem write_injective : Function.Injective literalLayout.write := by
  intro x y h
  have hhead := literalLayout.digitFirst_magnitudeText
  have hnan : literalLayout.nan.toList.any Char.isDigit = false := by decide
  have hinfinity (negative : Bool) : (literalLayout.infinityText negative).toList.any Char.isDigit = false := by
    cases negative <;> decide
  have happart (negative : Bool) : literalLayout.nan ≠ literalLayout.infinityText negative := by
    cases negative <;> decide
  have hsign (negative negative' : Bool)
      (h : literalLayout.infinityText negative = literalLayout.infinityText negative') : negative = negative' := by
    cases negative <;> cases negative' <;> first | rfl | exact absurd h (by decide)
  apply Binary64.ofFloat_injective
  rw [Layout.write_eq, Layout.write_eq] at h
  rcases hx : Binary64.ofFloat x with _ | negative | ⟨negative, mantissa, exponent⟩ <;>
    rcases hy : Binary64.ofFloat y with _ | negative' | ⟨negative', mantissa', exponent'⟩ <;>
    simp only [hx, hy] at h
  · rfl
  · exact absurd h (happart _)
  · exact absurd h (word_ne_signedText hnan (hhead _ _))
  · exact absurd h.symm (happart _)
  · rw [hsign _ _ h]
  · exact absurd h (word_ne_signedText (hinfinity _) (hhead _ _))
  · exact absurd h.symm (word_ne_signedText hnan (hhead _ _))
  · exact absurd h.symm (word_ne_signedText (hinfinity _) (hhead _ _))
  · obtain ⟨rfl, htext⟩ := signedText_injective (hhead _ _) (hhead _ _) (String.ofList_injective h)
    obtain ⟨rfl, rfl⟩ := Layout.magnitudeText_injective (Binary64.magnitude_of_ofBits hx)
      (Binary64.magnitude_of_ofBits hy) htext
    rfl

theorem lineFeed_not_mem_write (x : Float) : '\n' ∉ (literalLayout.write x).toList := by
  have hnan : '\n' ∉ literalLayout.nan.toList := by decide
  have hinfinity : ∀ negative, '\n' ∉ (literalLayout.infinityText negative).toList := by decide
  rw [Layout.write_eq]
  split
  · exact hnan
  · exact hinfinity _
  · rename_i negative mantissa exponent _
    have hdigits := literalLayout.lineFeed_not_mem_magnitudeText mantissa exponent
    rw [String.toList_ofList]
    cases negative <;> simp [signedText, hdigits]

end Syntax

/-! ## Whole numbers -/

theorem Decimal.intText?_digits {n : Nat} {text : String} (h : intText? n = some text) :
    text.toList = Nat.toDigits 10 n := by
  rw [intText?] at h
  split at h
  · cases h
  · rw [← Option.some.inj h]
    exact Nat.toList_repr

/-- no two whole numbers have one text -/
theorem Decimal.intText?_injective {n m : Nat} {text : String} (h : intText? n = some text)
    (h' : intText? m = some text) : n = m :=
  calc n = Nat.ofDigitChars 10 text.toList 0 := by rw [intText?_digits h, Nat.ofDigitChars_ten_toDigits]
    _ = m := by rw [intText?_digits h', Nat.ofDigitChars_ten_toDigits]

theorem Decimal.lineFeed_not_mem_intText? {n : Nat} {text : String} (h : intText? n = some text) :
    '\n' ∉ text.toList := by
  rw [intText?_digits h]
  exact fun hmem => absurd (Nat.isDigit_of_mem_toDigits (by norm_num) (by norm_num) hmem) (by decide)

end LevelScript
