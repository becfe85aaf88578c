/-
Which whole numbers have a nearest floating-point number.

`Decimal.infinityBits_le_iff`: rounding a whole number gives a pattern beyond the finite ones exactly from
`Decimal.overflowStart` on, which lies half-way between the largest floating-point number and the next power of two. So
a literal with a point has a value unless its whole part is that large (`Syntax.pointValue?_eq`).

The proof follows the binary logarithm of the number: below the last power of two every mantissa is in range, above it
none is, and at it the mantissa is compared with the one that a carry would give.
-/
import Mathlib.Data.Nat.Digits.Defs
import Mathlib.Tactic
import LevelScript.Syntax.Lexeme

namespace LevelScript

/-! ## Digits -/

/-- a run of digits is read from the left, and so spells the number of which they are the digits to the base ten -/
theorem Text.digitsValue_eq (digits : List Char) :
    digitsValue digits = Nat.ofDigits 10 (digits.reverse.map fun c => c.toNat - 48) := by
  induction digits using List.reverseRecOn with
  | nil => rfl
  | append_singleton digits c ih =>
    rw [digitsValue, List.foldl_append, ← digitsValue, ih, List.reverse_append, List.reverse_singleton,
      List.singleton_append, List.map_cons, Nat.ofDigits_cons]
    simp only [List.foldl_cons, List.foldl_nil]
    exact Nat.add_comm _ _

namespace Decimal

/-! ## Rounding to a floating-point number -/

/-- half the distance between the two largest floating-point numbers -/
def lastHalf : Nat := 2 ^ 970

/-- the least whole number without a nearest floating-point number: it lies half-way between the largest one and the
next power of two -/
def overflowStart : Nat := 2 ^ 1024 - lastHalf

/-- a quotient that is at least a whole number is rounded to that number or more -/
theorem le_divRoundEven {k num den : Nat} (hden : 0 < den) (h : k * den ≤ num) : k ≤ divRoundEven num den := by
  have hq : k ≤ num / den := (Nat.le_div_iff_mul_le hden).2 h
  simp only [divRoundEven]
  split
  · exact hq
  · exact Nat.le_succ_of_le hq

/-- a quotient below a whole number is rounded to that number or less -/
theorem divRoundEven_le {k num den : Nat} (hden : 0 < den) (h : num < k * den) : divRoundEven num den ≤ k := by
  have hq : num / den < k := (Nat.div_lt_iff_lt_mul hden).2 h
  simp only [divRoundEven]
  split
  · exact hq.le
  · exact hq

/-- a quotient below an even number reaches it by rounding exactly if it is at most a half away -/
theorem le_divRoundEven_iff {k num half : Nat} (hhalf : 0 < half) (heven : k % 2 = 0) (hlt : num < k * (2 * half)) :
    k ≤ divRoundEven num (2 * half) ↔ k * (2 * half) - half ≤ num := by
  obtain ⟨j, rfl⟩ : ∃ j, k = j + 1 := by
    cases k with
    | zero => simp at hlt
    | succ j => exact ⟨j, rfl⟩
  have hbound : (j + 1) * (2 * half) - half = j * (2 * half) + half := by
    rw [Nat.succ_mul]
    omega
  have hdivmod := Nat.div_add_mod num (2 * half)
  have hq : num / (2 * half) ≤ j := Nat.le_of_lt_succ ((Nat.div_lt_iff_lt_mul (by omega)).2 hlt)
  have hr : num % (2 * half) < 2 * half := Nat.mod_lt _ (by omega)
  rw [hbound]
  simp only [divRoundEven]
  rcases hq.lt_or_eq with hless | hsame
  · -- the quotient is more than one below, so that rounding up does not reach the number
    have hnum : num < j * (2 * half) := (Nat.div_lt_iff_lt_mul (by omega)).1 hless
    constructor
    · intro h
      split at h <;> omega
    · intro h
      omega
  · rw [hsame] at hdivmod ⊢
    have hcomm : 2 * half * j = j * (2 * half) := Nat.mul_comm _ _
    constructor
    · intro h
      split at h <;> omega
    · intro h
      rw [if_neg (by omega)]

theorem nearestBits_nat {n : Nat} (hn : n ≠ 0) : nearestBits n 1 =
    (n.log2 + 1022) * 2 ^ 52 + divRoundEven (n * 2 ^ (52 - n.log2)) (2 ^ (n.log2 - 52)) := by
  have hone : Nat.log2 1 = 0 := by decide
  have hlog : 2 ^ n.log2 ≤ n := Nat.log2_self_le hn
  have htop : 2 ^ (Int.ofNat n.log2 - Int.ofNat 0).toNat ≤ n * 2 ^ (-(Int.ofNat n.log2 - Int.ofNat 0)).toNat := by
    simpa using hlog
  have hmax : max (-1074 : Int) (Int.ofNat n.log2 - Int.ofNat 0 - 52) = Int.ofNat n.log2 - 52 := by
    simp only [Int.ofNat_eq_natCast]
    omega
  have hup : (-(Int.ofNat n.log2 - 52)).toNat = 52 - n.log2 := by
    simp only [Int.ofNat_eq_natCast]
    omega
  have hdown : (Int.ofNat n.log2 - 52).toNat = n.log2 - 52 := by
    simp only [Int.ofNat_eq_natCast]
    omega
  have hshift : (Int.ofNat n.log2 - 52 - -1074).toNat = n.log2 + 1022 := by
    simp only [Int.ofNat_eq_natCast]
    omega
  rw [nearestBits, if_neg hn, hone]
  simp only [minExponent, Nat.pow_eq, Nat.one_mul, if_pos htop, hmax, hup, hdown, hshift]

/-- a whole number is out of range exactly if it is at least `overflowStart` -/
theorem infinityBits_le_iff (n : Nat) : infinityBits ≤ nearestBits n 1 ↔ overflowStart ≤ n := by
  have hpos : 0 < lastHalf := by
    rw [lastHalf]
    positivity
  have h971 : 2 ^ 971 = 2 * lastHalf := by rw [lastHalf, ← Nat.pow_succ']
  have h1023 : 2 ^ 1023 = 2 ^ 53 * lastHalf := by rw [lastHalf, ← Nat.pow_add]
  have h1024 : 2 ^ 1024 = 2 ^ 53 * (2 * lastHalf) := by rw [← h971, ← Nat.pow_add]
  have hstart : overflowStart = 2 ^ 53 * (2 * lastHalf) - lastHalf := by rw [overflowStart, h1024]
  have hinf : infinityBits = 2047 * 2 ^ 52 := by decide
  rcases Nat.eq_zero_or_pos n with rfl | hn
  · have hzero : nearestBits 0 1 = 0 := by rw [nearestBits, if_pos rfl]
    rw [hzero, hinf, hstart]
    omega
  have hn : n ≠ 0 := hn.ne'
  have hlow : 2 ^ n.log2 ≤ n := Nat.log2_self_le hn
  have hhigh : n < 2 ^ (n.log2 + 1) := Nat.lt_log2_self
  rw [nearestBits_nat hn, hinf]
  rcases Nat.lt_trichotomy n.log2 1023 with hlog | hlog | hlog
  · -- below the last power of two every mantissa is in range
    have hmantissa : n * 2 ^ (52 - n.log2) < 2 ^ 53 * 2 ^ (n.log2 - 52) := by
      calc n * 2 ^ (52 - n.log2) < 2 ^ (n.log2 + 1) * 2 ^ (52 - n.log2) :=
            Nat.mul_lt_mul_of_pos_right hhigh (Nat.two_pow_pos _)
        _ = 2 ^ 53 * 2 ^ (n.log2 - 52) := by
            rw [← Nat.pow_add, ← Nat.pow_add, show n.log2 + 1 + (52 - n.log2) = 53 + (n.log2 - 52) by omega]
    have hround := divRoundEven_le (Nat.two_pow_pos _) hmantissa
    have hless : n < 2 ^ 53 * lastHalf := by
      calc n < 2 ^ (n.log2 + 1) := hhigh
        _ ≤ 2 ^ 1023 := pow_le_pow_right₀ one_le_two (by omega)
        _ = 2 ^ 53 * lastHalf := h1023
    rw [hstart]
    omega
  · have hup : 52 - n.log2 = 0 := by omega
    have hdown : n.log2 - 52 = 971 := by omega
    have hlt : n < 2 ^ 53 * (2 * lastHalf) := by
      rwa [← h1024, ← show n.log2 + 1 = 1024 by omega]
    have hiff := le_divRoundEven_iff hpos (by decide : 2 ^ 53 % 2 = 0) hlt
    rw [hup, hdown, Nat.pow_zero, Nat.mul_one, h971, hlog, hstart, ← hiff]
    omega
  · have hmantissa : 2 ^ 52 * 2 ^ (n.log2 - 52) ≤ n * 2 ^ (52 - n.log2) := by
      calc 2 ^ 52 * 2 ^ (n.log2 - 52) = 2 ^ n.log2 := by
            rw [← Nat.pow_add, show 52 + (n.log2 - 52) = n.log2 by omega]
        _ ≤ n := hlow
        _ = n * 2 ^ (52 - n.log2) := by
            rw [show 52 - n.log2 = 0 by omega, Nat.pow_zero, Nat.mul_one]
    have hround := le_divRoundEven (Nat.two_pow_pos _) hmantissa
    have hmore : 2 ^ 53 * (2 * lastHalf) ≤ n := by
      calc 2 ^ 53 * (2 * lastHalf) = 2 ^ 1024 := h1024.symm
        _ ≤ 2 ^ n.log2 := pow_le_pow_right₀ one_le_two hlog
        _ ≤ n := hlow
    rw [hstart]
    omega

theorem ofInt?_natCast (n : Nat) :
    ofInt? n = if overflowStart ≤ n then none else some (ofQuotient false n 1) := by
  have hsign : decide ((n : Int) < 0) = false := by simp
  simp only [ofInt?, Int.natAbs_natCast, hsign, infinityBits_le_iff]

end Decimal

/-! ## Literals with a point -/

namespace Syntax

def wholeDigits (number : List Char) : List Char := number.takeWhile (· ≠ '.')

def fractionDigits (number : List Char) : List Char := (number.dropWhile (· ≠ '.')).filter Char.isDigit

/-- a literal with a point has a value unless its whole part is out of range, whatever its digits behind the point -/
theorem pointValue?_eq (number : List Char) : pointValue? number =
    if Decimal.overflowStart ≤ Text.digitsValue (wholeDigits number) then none
    else some (Decimal.ofQuotient false (Text.digitsValue (wholeDigits number)) 1 +
      fractionValue (fractionDigits number)) := by
  have hunfold : pointValue? number =
      (Decimal.ofInt? (Text.digitsValue (wholeDigits number))).map (· + fractionValue (fractionDigits number)) := rfl
  rw [hunfold, Decimal.ofInt?_natCast]
  split
  · exact Option.map_none _
  · exact Option.map_some _ _

end Syntax

end LevelScript
