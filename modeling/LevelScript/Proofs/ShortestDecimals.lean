/-
The shortest decimal of a floating-point number names that number and no other.

`Decimal.Reduced.shortest_spec`: the decimal that `Decimal.shortest` finds lies in the interval of reals that round to
the number. Seventeen places always suffice: half a step of the last grid is less than the distance to the end of the
interval, even below a power of two, where that distance is halved. `Decimal.Reduced.eq_of_contains`: the intervals of
different numbers have no real in common. So the value of the decimal determines the number
(`Decimal.shortest_value_injective`).

All values are rational numbers, where powers of two and powers of ten can be compared.
-/
import Mathlib.Data.Nat.Digits.Defs
import Mathlib.Tactic
import LevelScript.Decimal.Shortest
import LevelScript.Proofs.NumberRange

namespace LevelScript.Decimal

/-! ## Powers -/

/-- a power to a whole exponent in terms of the two natural numbers that the exponent is split into -/
theorem zpow_mul_pow_toNat {b : ℚ} (hb : b ≠ 0) (k : ℤ) : b ^ k * b ^ (-k).toNat = b ^ k.toNat := by
  rw [← zpow_natCast, ← zpow_natCast, ← zpow_add₀ hb]
  congr 1
  omega

theorem natCast_mul_zpow (n : ℕ) {b : ℚ} (hb : b ≠ 0) (k : ℤ) : n * b ^ k * b ^ (-k).toNat = n * b ^ k.toNat := by
  rw [mul_assoc, zpow_mul_pow_toNat hb]

def Scientific.value (s : Scientific) : ℚ := s.digits * 10 ^ (s.scale - s.places + 1)

theorem Scientific.places_carried (s : Scientific) : s.carried.places = s.places := by
  rw [carried]
  split <;> rfl

theorem Scientific.value_carried {s : Scientific} (h : 0 < s.places) : s.carried.value = s.value := by
  rw [carried]
  split
  case isFalse => rfl
  case isTrue hfull =>
    have hplaces : 10 ^ s.places = (10 : ℚ) ^ (s.places - 1) * 10 := by rw [← pow_succ, Nat.sub_add_cancel h]
    have hscale : (10 : ℚ) ^ (s.scale + 1 - s.places + 1) = 10 * 10 ^ (s.scale - s.places + 1) := by
      rw [show s.scale + 1 - s.places + 1 = s.scale - s.places + 1 + 1 by ring, zpow_add_one₀ (by norm_num), mul_comm]
    simp only [value, hfull, Nat.pow_eq, Nat.cast_pow, Nat.cast_ofNat]
    rw [hplaces, hscale, mul_assoc]

theorem Scientific.carried_digits_lt {s : Scientific} (hplaces : 0 < s.places) (h : s.digits ≤ 10 ^ s.places) :
    s.carried.digits < 10 ^ s.carried.places := by
  rw [carried]
  split
  case isTrue => exact Nat.pow_lt_pow_right (by norm_num) (Nat.sub_lt hplaces Nat.one_pos)
  case isFalse hne => exact lt_of_le_of_ne h hne

/-! ## The interval of a number -/

/-- a real that rounds to the number of the interval -/
def Rounding.Contains (r : Rounding) (x : ℚ) : Prop :=
  if r.closed then r.low ≤ x * r.den ∧ x * r.den ≤ r.high else r.low < x * r.den ∧ x * r.den < r.high

/-! ## The power of ten of the first digit -/

theorem digitCount_pos {n : Nat} (hn : 0 < n) : 0 < digitCount n := by
  rw [digitCount, if_neg hn.ne']
  exact Nat.length_toDigits_pos

theorem lt_pow_digitCount {n : Nat} (hn : 0 < n) : n < 10 ^ digitCount n := by
  have h := digitCount_pos hn
  rw [digitCount, if_neg hn.ne'] at h ⊢
  exact (Nat.length_toDigits_le_iff (by norm_num) h).1 le_rfl

theorem pow_digitCount_le {n : Nat} (hn : 0 < n) : 10 ^ (digitCount n - 1) ≤ n := by
  rcases Nat.eq_zero_or_pos (digitCount n - 1) with hone | hmore
  · rw [hone, pow_zero]
    exact hn
  · by_contra! hlt
    have hshort := (Nat.length_toDigits_le_iff (by norm_num) hmore).2 hlt
    have hcount : digitCount n = (Nat.toDigits 10 n).length := by rw [digitCount, if_neg hn.ne']
    omega

/-- a positive quotient has its first digit at its leading power -/
theorem leadingPower_spec {num den : Nat} (hnum : 0 < num) (hden : 0 < den) :
    (10 : ℚ) ^ leadingPower num den ≤ num / den ∧ (num / den : ℚ) < 10 ^ (leadingPower num den + 1) := by
  have hden' : (0 : ℚ) < den := by exact_mod_cast hden
  have hnum' : (0 : ℚ) < num := by exact_mod_cast hnum
  rw [leadingPower]
  split
  case isTrue hle =>
    -- the whole part of the quotient has the digits
    have hq : 0 < num / den := Nat.div_pos hle hden
    have hpos := digitCount_pos hq
    rw [show (Int.ofNat (digitCount (num / den)) - 1 : ℤ) = ((digitCount (num / den) - 1 : ℕ) : ℤ) by simp; omega,
      ← Nat.cast_succ, zpow_natCast, zpow_natCast, Nat.succ_eq_add_one, Nat.sub_add_cancel hpos, le_div_iff₀ hden',
      div_lt_iff₀ hden']
    have hlow := (Nat.le_div_iff_mul_le hden).1 (pow_digitCount_le hq)
    have hhigh := (Nat.div_lt_iff_lt_mul hden).1 (lt_pow_digitCount hq)
    exact ⟨by exact_mod_cast hlow, by exact_mod_cast hhigh⟩
  case isFalse hlt =>
    -- the greatest whole number below the inverse has one digit less than the count of zeros
    push Not at hlt
    obtain ⟨c, hc⟩ : ∃ c, (den + num - 1) / num = c + 1 :=
      Nat.exists_eq_add_one.2 (Nat.div_pos (by omega) hnum)
    have hceil : c * num < den ∧ den ≤ (c + 1) * num := by
      have hle := (Nat.le_div_iff_mul_le hnum).1 hc.ge
      have hlt := (Nat.div_lt_iff_lt_mul hnum).1 (hc.trans_lt (Nat.lt_succ_self _))
      constructor <;> grind
    have hcpos : 0 < c := by
      by_contra! hzero
      have := hceil.2
      interval_cases c
      omega
    have hpos := digitCount_pos hcpos
    rw [hc, Nat.add_sub_cancel, Int.ofNat_eq_natCast, zpow_neg, zpow_natCast,
      show (-(digitCount c : ℤ) + 1) = -((digitCount c - 1 : ℕ) : ℤ) by omega, zpow_neg, zpow_natCast]
    have hlow : 10 ^ (digitCount c - 1) * num < den :=
      (Nat.mul_le_mul_right _ (pow_digitCount_le hcpos)).trans_lt hceil.1
    have hhigh : den ≤ 10 ^ digitCount c * num :=
      hceil.2.trans (Nat.mul_le_mul_right _ (lt_pow_digitCount hcpos))
    constructor
    · rw [inv_le_comm₀ (by positivity) (by positivity), inv_div, div_le_iff₀ hnum']
      exact_mod_cast hhigh
    · rw [lt_inv_comm₀ (by positivity) (by positivity), inv_div, lt_div_iff₀ hnum']
      exact_mod_cast hlow

/-! ## Grids of decimals -/

/-- rounding a quotient moves it by a half at most -/
theorem abs_divRoundEven_sub_le (num : Nat) {den : Nat} (hden : 0 < den) :
    |(divRoundEven num den : ℚ) - num / den| ≤ 1 / 2 := by
  have hden' : (0 : ℚ) < den := by exact_mod_cast hden
  have hdivmod : (num : ℚ) = den * (num / den : ℕ) + (num % den : ℕ) := by exact_mod_cast (Nat.div_add_mod num den).symm
  have hquotient : (num / den : ℚ) = (num / den : ℕ) + (num % den : ℕ) / (den : ℚ) := by
    rw [hdivmod]
    field_simp
  have hrest : (num % den : ℕ) < (den : ℚ) := by exact_mod_cast Nat.mod_lt num hden
  rw [hquotient, divRoundEven]
  split
  case isTrue hdown =>
    have hhalf : (2 : ℚ) * (num % den : ℕ) ≤ den := by exact_mod_cast (show 2 * (num % den) ≤ den by omega)
    rw [sub_add_cancel_left, abs_neg, abs_of_nonneg (by positivity), div_le_div_iff₀ hden' two_pos]
    linarith
  case isFalse hup =>
    have hhalf : (den : ℚ) ≤ 2 * (num % den : ℕ) := by exact_mod_cast (show den ≤ 2 * (num % den) by omega)
    rw [Nat.cast_succ, add_sub_add_left_eq_sub, abs_of_nonneg (by rw [sub_nonneg, div_le_one hden']; exact hrest.le),
      sub_le_iff_le_add, ← sub_le_iff_le_add', le_div_iff₀ hden']
    linarith

variable {r : Rounding} {scale : Int} {places : Nat}

/-- the number that an interval is about -/
def Rounding.center (r : Rounding) : ℚ := r.value / r.den

/-- the number on the scale of a grid -/
theorem Rounding.center_eq_mul (hden : 0 < r.den) (power : Int) :
    ((r.value * Nat.pow 10 (-power).toNat : ℕ) / (r.den * Nat.pow 10 power.toNat : ℕ) : ℚ) * 10 ^ power = r.center := by
  have hden' : (r.den : ℚ) ≠ 0 := by exact_mod_cast hden.ne'
  push_cast [Nat.pow_eq]
  rw [← zpow_mul_pow_toNat (by norm_num : (10 : ℚ) ≠ 0) power, center]
  field_simp

/-- the nearest decimal of a grid is half a step away at most -/
theorem Rounding.abs_nearest_sub_le (hden : 0 < r.den) (scale : Int) (places : Nat) :
    |(r.nearest scale places : ℚ) * 10 ^ (scale - places + 1) - r.center| ≤ 10 ^ (scale - places + 1) / 2 := by
  have hpower : (0 : ℚ) < 10 ^ (scale - places + 1) := by positivity
  have hpos : 0 < r.den * Nat.pow 10 (scale - places + 1).toNat := Nat.mul_pos hden (Nat.pow_pos (by norm_num))
  rw [← center_eq_mul hden (scale - places + 1), ← sub_mul, abs_mul, abs_of_pos hpower]
  calc _ ≤ 1 / 2 * (10 : ℚ) ^ (scale - places + 1) :=
        mul_le_mul_of_nonneg_right (abs_divRoundEven_sub_le _ hpos) hpower.le
    _ = _ := by ring

/-- a number below the next power of ten is below the next power on every grid -/
theorem Rounding.scaled_lt (hden : 0 < r.den) (hscale : r.center < 10 ^ (scale + 1)) :
    r.value * Nat.pow 10 (-(scale - places + 1)).toNat <
      10 ^ places * (r.den * Nat.pow 10 (scale - places + 1).toNat) := by
  have hpower : (0 : ℚ) < 10 ^ (scale - places + 1) := by positivity
  have hpos : (0 : ℚ) < (r.den * Nat.pow 10 (scale - places + 1).toNat : ℕ) := by
    exact_mod_cast Nat.mul_pos hden (Nat.pow_pos (by norm_num))
  have hsplit : (10 : ℚ) ^ (scale + 1) = 10 ^ places * 10 ^ (scale - places + 1) := by
    rw [← zpow_natCast, ← zpow_add₀ (by norm_num)]
    congr 1
    ring
  rw [← center_eq_mul hden (scale - places + 1), hsplit, mul_lt_mul_iff_left₀ hpower, div_lt_iff₀ hpos] at hscale
  exact_mod_cast hscale

/-! ## The search -/

theorem Rounding.admits_iff (r : Rounding) (n : Nat) (power : Int) :
    r.admits n power = true ↔ r.Contains (n * 10 ^ power) := by
  have hshift : (0 : ℚ) < 10 ^ (-power).toNat := by positivity
  have hscaled : (n * 10 ^ power.toNat * r.den : ℚ) = n * 10 ^ power * r.den * 10 ^ (-power).toNat := by
    rw [← natCast_mul_zpow n (by norm_num) power]
    ring
  simp only [admits, Contains, Nat.pow_eq, ← @Nat.cast_le ℚ, ← @Nat.cast_lt ℚ, Nat.cast_mul, Nat.cast_pow,
    Nat.cast_ofNat, hscaled, mul_le_mul_iff_left₀ hshift, mul_lt_mul_iff_left₀ hshift]
  split <;> simp

/-- a candidate is a decimal of its grid that lies in the interval -/
theorem Rounding.candidate?_spec {s : Scientific} (hden : 0 < r.den) (hscale : r.center < 10 ^ (scale + 1))
    (h : r.candidate? scale places = some s) :
    s.places = places ∧ s.digits ≤ 10 ^ s.places ∧ r.Contains s.value := by
  have hpos : 0 < r.den * Nat.pow 10 (scale - places + 1).toNat := Nat.mul_pos hden (Nat.pow_pos (by norm_num))
  have hbelow : r.value * Nat.pow 10 (-(scale - places + 1)).toNat / (r.den * Nat.pow 10 (scale - places + 1).toNat) <
      10 ^ places := (Nat.div_lt_iff_lt_mul hpos).2 (scaled_lt hden hscale)
  obtain ⟨n, hfound, rfl⟩ := Option.map_eq_some_iff.1 h
  have hadmits := List.find?_some hfound
  refine ⟨rfl, ?_, (admits_iff ..).1 hadmits⟩
  have hmem := List.mem_of_find?_eq_some hfound
  simp only [List.mem_cons, List.not_mem_nil, or_false] at hmem
  rcases hmem with rfl | rfl
  · exact divRoundEven_le hpos (scaled_lt hden hscale)
  · split
    · exact hbelow
    · exact hbelow.le

/-- the search ends with a decimal in the interval, or with the nearest one of the last grid -/
theorem Rounding.search_spec (hden : 0 < r.den) (hscale : r.center < 10 ^ (scale + 1)) (grids places : Nat) :
    places ≤ (r.search scale grids places).places ∧
      (r.search scale grids places).digits ≤ 10 ^ (r.search scale grids places).places ∧
      (r.Contains (r.search scale grids places).value ∨
        r.search scale grids places = ⟨r.nearest scale (places + grids), places + grids, scale⟩) := by
  induction grids generalizing places with
  | zero =>
    have hpos : 0 < r.den * Nat.pow 10 (scale - places + 1).toNat := Nat.mul_pos hden (Nat.pow_pos (by norm_num))
    exact ⟨le_rfl, divRoundEven_le hpos (scaled_lt hden hscale), .inr rfl⟩
  | succ grids ih =>
    rw [search]
    cases hcandidate : r.candidate? scale places with
    | some s =>
      obtain ⟨hplaces, hdigits, hcontains⟩ := candidate?_spec hden hscale hcandidate
      exact ⟨hplaces.ge, hdigits, .inl hcontains⟩
    | none =>
      obtain ⟨hplaces, hdigits, hend⟩ := ih (places + 1)
      rw [show places + 1 + grids = places + (grids + 1) by ring] at hend
      exact ⟨(Nat.le_succ _).trans hplaces, hdigits, hend⟩

/-! ## The interval of a floating-point number -/

/-- a positive number as its pattern gives it: the mantissa has 53 binary digits at most, and fewer only at the least
exponent -/
structure Reduced (mantissa : Nat) (exponent : Int) : Prop where
  pos : 0 < mantissa
  lt : mantissa < 2 ^ 53
  least : minExponent ≤ exponent
  full : minExponent < exponent → 2 ^ 52 ≤ mantissa

/-- the distance from a number down to the end of its interval, in quarters of a unit -/
def quartersBelow (mantissa : Nat) (exponent : Int) : Nat :=
  if mantissa = Nat.pow 2 52 ∧ minExponent < exponent then 1 else 2

variable {mantissa : Nat} {exponent : Int}

theorem quartersBelow_le (mantissa : Nat) (exponent : Int) : quartersBelow mantissa exponent ≤ 2 := by
  rw [quartersBelow]
  split <;> simp

/-- a quarter of a unit -/
def quarter (exponent : Int) : ℚ := 2 ^ (exponent - 2)

theorem quarter_pos (exponent : Int) : 0 < quarter exponent := by rw [quarter]; positivity

theorem Rounding.den_around_pos (mantissa : Nat) (exponent : Int) : 0 < (around mantissa exponent).den :=
  Nat.pow_pos (by norm_num)

theorem quarter_mul_den (n mantissa : Nat) (exponent : Int) :
    n * quarter exponent * (Rounding.around mantissa exponent).den = (n * Nat.pow 2 (exponent - 2).toNat : ℕ) := by
  have h := natCast_mul_zpow n (by norm_num : (2 : ℚ) ≠ 0) (exponent - 2)
  rw [neg_sub] at h
  rw [quarter, Rounding.around]
  push_cast [Nat.pow_eq]
  exact h

theorem Rounding.center_around (mantissa : Nat) (exponent : Int) :
    (around mantissa exponent).center = (4 * mantissa : ℕ) * quarter exponent := by
  have hden : ((around mantissa exponent).den : ℚ) ≠ 0 := by exact_mod_cast (den_around_pos mantissa exponent).ne'
  rw [center, div_eq_iff hden, quarter_mul_den]
  rfl

/-- the interval reaches half a unit up, and as far down as the numbers below are away -/
theorem Rounding.contains_around (mantissa : Nat) (exponent : Int) (x : ℚ) :
    (around mantissa exponent).Contains x ↔
      if mantissa % 2 = 0 then
        (4 * mantissa - quartersBelow mantissa exponent : ℕ) * quarter exponent ≤ x ∧
          x ≤ (4 * mantissa + 2 : ℕ) * quarter exponent
      else
        (4 * mantissa - quartersBelow mantissa exponent : ℕ) * quarter exponent < x ∧
          x < (4 * mantissa + 2 : ℕ) * quarter exponent := by
  have hden : (0 : ℚ) < (around mantissa exponent).den := by exact_mod_cast den_around_pos mantissa exponent
  have hlow : ((around mantissa exponent).low : ℚ) = _ :=
    (quarter_mul_den (4 * mantissa - quartersBelow mantissa exponent) mantissa exponent).symm
  have hhigh : ((around mantissa exponent).high : ℚ) = _ := (quarter_mul_den (4 * mantissa + 2) mantissa exponent).symm
  rw [Contains, hlow, hhigh, mul_le_mul_iff_left₀ hden, mul_le_mul_iff_left₀ hden, mul_lt_mul_iff_left₀ hden,
    mul_lt_mul_iff_left₀ hden]
  simp only [around, decide_eq_true_eq]

theorem Rounding.contains_around_of_lt {x : ℚ}
    (hlow : (4 * mantissa - quartersBelow mantissa exponent : ℕ) * quarter exponent < x)
    (hhigh : x < (4 * mantissa + 2 : ℕ) * quarter exponent) : (around mantissa exponent).Contains x := by
  rw [contains_around]
  split
  · exact ⟨hlow.le, hhigh.le⟩
  · exact ⟨hlow, hhigh⟩

theorem Rounding.Contains.bounds {x : ℚ} (h : (around mantissa exponent).Contains x) :
    (4 * mantissa - quartersBelow mantissa exponent : ℕ) * quarter exponent ≤ x ∧
      x ≤ (4 * mantissa + 2 : ℕ) * quarter exponent := by
  rw [contains_around] at h
  split at h
  · exact h
  · exact ⟨h.1.le, h.2.le⟩

/-- an odd mantissa leaves out the ends of its interval -/
theorem Rounding.Contains.bounds_odd {x : ℚ} (h : (around mantissa exponent).Contains x) (hodd : mantissa % 2 = 1) :
    (4 * mantissa - quartersBelow mantissa exponent : ℕ) * quarter exponent < x ∧
      x < (4 * mantissa + 2 : ℕ) * quarter exponent := by
  rw [contains_around, if_neg (by omega)] at h
  exact h

/-! ## Seventeen places -/

theorem Reduced.center_pos (h : Reduced mantissa exponent) : 0 < (Rounding.around mantissa exponent).value :=
  Nat.mul_pos (Nat.mul_pos (by norm_num) h.pos) (Nat.pow_pos (by norm_num))

/-- the first digit of a number -/
theorem Reduced.leadingPower_spec (h : Reduced mantissa exponent) :
    let r := Rounding.around mantissa exponent
    (10 : ℚ) ^ leadingPower r.value r.den ≤ r.center ∧ r.center < 10 ^ (leadingPower r.value r.den + 1) :=
  Decimal.leadingPower_spec h.center_pos (Rounding.den_around_pos ..)

theorem Reduced.lt_quartersBelow (h : Reduced mantissa exponent) :
    mantissa < 5 * 10 ^ 15 * quartersBelow mantissa exponent := by
  have hlt := h.lt
  rw [quartersBelow]
  split
  case isTrue hpower =>
    rw [hpower.1]
    norm_num
  case isFalse => omega

/-- the nearest decimal with seventeen places lies in the interval -/
theorem Reduced.contains_nearest (h : Reduced mantissa exponent) {scale : Int}
    (hscale : (10 : ℚ) ^ scale ≤ (Rounding.around mantissa exponent).center) :
    let r := Rounding.around mantissa exponent
    r.Contains (r.nearest scale 17 * 10 ^ (scale - 17 + 1)) := by
  intro r
  have hnearest := r.abs_nearest_sub_le (Rounding.den_around_pos ..) scale 17
  have hstep : (10 : ℚ) ^ scale = 10 ^ 16 * 10 ^ (scale - 17 + 1) := by
    rw [← zpow_natCast, ← zpow_add₀ (by norm_num)]
    congr 1
    push_cast
    ring
  have hcenter : r.center = (4 * mantissa : ℕ) * quarter exponent := Rounding.center_around ..
  have hwithin : (quartersBelow mantissa exponent : ℚ) ≤ 4 * mantissa := by
    exact_mod_cast (quartersBelow_le ..).trans (by linarith [h.pos])
  -- half a step of the grid is `mantissa / (5 · 10 ^ 15)` quarters of a unit at most
  have hbelow : mantissa * quarter exponent < 5 * 10 ^ 15 * (quartersBelow mantissa exponent * quarter exponent) := by
    rw [← mul_assoc]
    exact mul_lt_mul_of_pos_right (by exact_mod_cast h.lt_quartersBelow) (quarter_pos exponent)
  have habove : mantissa * quarter exponent < 10 ^ 16 * quarter exponent :=
    mul_lt_mul_of_pos_right (by exact_mod_cast h.lt.trans (by norm_num)) (quarter_pos exponent)
  rw [hstep, hcenter] at hscale
  rw [hcenter, abs_le] at hnearest
  push_cast at hscale hnearest
  refine Rounding.contains_around_of_lt ?_ ?_
  · rw [Nat.cast_sub (by exact_mod_cast hwithin), sub_mul]
    push_cast
    linarith
  · push_cast
    linarith

/-- the decimal that is found has digits that fit its places, and lies in the interval -/
theorem Reduced.shortest_spec (h : Reduced mantissa exponent) :
    0 < (shortest mantissa exponent).places ∧
      (shortest mantissa exponent).digits < 10 ^ (shortest mantissa exponent).places ∧
      (Rounding.around mantissa exponent).Contains (shortest mantissa exponent).value := by
  obtain ⟨hlow, hhigh⟩ := h.leadingPower_spec
  obtain ⟨hplaces, hdigits, hend⟩ := Rounding.search_spec (Rounding.den_around_pos ..) hhigh 16 1
  rw [shortest]
  refine ⟨(Scientific.places_carried _).ge.trans' hplaces, Scientific.carried_digits_lt hplaces hdigits, ?_⟩
  rw [Scientific.value_carried hplaces]
  rcases hend with hcontains | hlast
  · exact hcontains
  · rw [hlast]
    exact h.contains_nearest hlow

/-- the interval lies above zero -/
theorem Reduced.shortest_value_pos (h : Reduced mantissa exponent) : 0 < (shortest mantissa exponent).value := by
  refine lt_of_lt_of_le (mul_pos ?_ (quarter_pos exponent)) h.shortest_spec.2.2.bounds.1
  have := quartersBelow_le mantissa exponent
  have := h.pos
  exact_mod_cast (by omega : 0 < 4 * mantissa - quartersBelow mantissa exponent)

/-! ## Intervals of different numbers -/

variable {other : Nat} {otherExponent : Int}

/-- two intervals with a real in common overlap, and in more than an end if an odd mantissa leaves its ends out -/
theorem Rounding.Contains.overlap {x : ℚ} (h : (around mantissa exponent).Contains x)
    (h' : (around other otherExponent).Contains x) :
    let low : ℚ := (4 * other - quartersBelow other otherExponent : ℕ) * quarter otherExponent
    let high : ℚ := (4 * mantissa + 2 : ℕ) * quarter exponent
    low ≤ high ∧ (mantissa % 2 = 1 ∨ other % 2 = 1 → low < high) := by
  refine ⟨h'.bounds.1.trans h.bounds.2, ?_⟩
  rintro (hodd | hodd)
  · exact h'.bounds.1.trans_lt (h.bounds_odd hodd).2
  · exact (h'.bounds_odd hodd).1.trans_le h.bounds.2

/-- at one exponent, the greater mantissa has the interval further up -/
theorem Reduced.mantissa_le (h : Reduced mantissa exponent) {x : ℚ}
    (hx : (Rounding.around mantissa exponent).Contains x) (hx' : (Rounding.around other exponent).Contains x) :
    other ≤ mantissa := by
  by_contra! hlt
  -- a power of two with closer numbers below it is the least mantissa of its exponent
  have htwo : quartersBelow other exponent = 2 := by
    rw [quartersBelow, if_neg]
    rintro ⟨hother, hexponent⟩
    exact absurd (h.full hexponent) (by rw [hother] at hlt; exact not_le.2 hlt)
  obtain ⟨hle, hstrict⟩ := hx.overlap hx'
  rw [htwo] at hle hstrict
  have hle' : 4 * other - 2 ≤ 4 * mantissa + 2 := by
    exact_mod_cast le_of_mul_le_mul_right hle (quarter_pos exponent)
  have hnext : other = mantissa + 1 := by omega
  have hlt' : 4 * other - 2 < 4 * mantissa + 2 := by
    exact_mod_cast lt_of_mul_lt_mul_right (hstrict (by omega)) (quarter_pos exponent).le
  omega

theorem two_mul_quarter_le (h : exponent < otherExponent) : 2 * quarter exponent ≤ quarter otherExponent := by
  rw [quarter, quarter, ← zpow_one_add₀ (by norm_num)]
  exact zpow_le_zpow_right₀ (by norm_num) (by omega)

/-- the interval of a greater exponent lies further up -/
theorem Reduced.exponent_le (h : Reduced mantissa exponent) (h' : Reduced other otherExponent) {x : ℚ}
    (hx : (Rounding.around mantissa exponent).Contains x) (hx' : (Rounding.around other otherExponent).Contains x) :
    otherExponent ≤ exponent := by
  by_contra! hlt
  have hquarter := quarter_pos exponent
  have hother : 2 ^ 54 - 1 ≤ 4 * other - quartersBelow other otherExponent := by
    have hfull := h'.full (h.least.trans_lt hlt)
    rw [quartersBelow]
    split
    · omega
    case isFalse hnot =>
      have : other ≠ 2 ^ 52 := fun heq => hnot ⟨heq, h.least.trans_lt hlt⟩
      omega
  have hlow : (2 ^ 55 - 2) * quarter exponent ≤
      (4 * other - quartersBelow other otherExponent : ℕ) * quarter otherExponent :=
    calc (2 ^ 55 - 2) * quarter exponent = ((2 ^ 54 - 1 : ℕ) : ℚ) * (2 * quarter exponent) := by push_cast; ring
      _ ≤ _ := mul_le_mul (by exact_mod_cast hother) (two_mul_quarter_le hlt) (by positivity) (by positivity)
  obtain ⟨hle, hstrict⟩ := hx.overlap hx'
  have hbound := h.lt
  rcases Nat.mod_two_eq_zero_or_one mantissa with heven | hodd
  · have hhigh : ((4 * mantissa + 2 : ℕ) : ℚ) < 2 ^ 55 - 2 := by
      have : 4 * mantissa + 2 + 2 < 2 ^ 55 := by omega
      rw [lt_sub_iff_add_lt]
      exact_mod_cast this
    exact absurd (hlow.trans hle) (not_le.2 (mul_lt_mul_of_pos_right hhigh hquarter))
  · have hhigh : ((4 * mantissa + 2 : ℕ) : ℚ) ≤ 2 ^ 55 - 2 := by
      have : 4 * mantissa + 2 + 2 ≤ 2 ^ 55 := by omega
      rw [le_sub_iff_add_le]
      exact_mod_cast this
    exact absurd (hlow.trans_lt (hstrict (.inl hodd))) (not_lt.2 (mul_le_mul_of_nonneg_right hhigh hquarter.le))

/-- no real rounds to two numbers -/
theorem Reduced.eq_of_contains (h : Reduced mantissa exponent) (h' : Reduced other otherExponent) {x : ℚ}
    (hx : (Rounding.around mantissa exponent).Contains x) (hx' : (Rounding.around other otherExponent).Contains x) :
    mantissa = other ∧ exponent = otherExponent := by
  obtain rfl := (h'.exponent_le h hx' hx).antisymm (h.exponent_le h' hx hx')
  exact ⟨(h'.mantissa_le hx' hx).antisymm (h.mantissa_le hx hx'), rfl⟩

/-- the value of the shortest decimal determines the number -/
theorem shortest_value_injective (h : Reduced mantissa exponent) (h' : Reduced other otherExponent)
    (hvalue : (shortest mantissa exponent).value = (shortest other otherExponent).value) :
    mantissa = other ∧ exponent = otherExponent := by
  have hx := h.shortest_spec.2.2
  rw [hvalue] at hx
  exact h.eq_of_contains h' hx h'.shortest_spec.2.2

end LevelScript.Decimal
