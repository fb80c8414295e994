import TypedTree.Proofs.Decimal.Scientific
/-! The shortest decimal of a real is one for which the real is the nearest. -/

namespace TypedTree.Decimal

section Scales

variable {number numerator denominator : ℕ} {grid : ℤ}

theorem pow_toNat_div {base : ℚ} (nonzero : base ≠ 0) (exponent : ℤ) :
    base ^ exponent.toNat / base ^ (-exponent).toNat = base ^ exponent := by
  rw [← zpow_natCast, ← zpow_natCast, ← zpow_sub₀ nonzero]
  congr 1
  omega

theorem powerOfTen_pos : 0 < powerOfTen grid := Nat.pow_pos (by decide)

theorem powerOfTen_div : (powerOfTen grid / powerOfTen (-grid) : ℚ) = 10 ^ grid := by
  have cast : ∀ exponent, (powerOfTen exponent : ℚ) = 10 ^ exponent.toNat := fun exponent => by
    exact_mod_cast rfl
  rw [cast, cast, pow_toNat_div (by norm_num)]

theorem zpow_magnitude_le (positive : 0 < numerator) (nonzero : 0 < denominator) :
    (10 : ℚ) ^ magnitude numerator denominator ≤ numerator / denominator := by
  have above : (0 : ℚ) < denominator := by exact_mod_cast nonzero
  rw [magnitude]
  split
  next whole =>
    have some : 0 < (Nat.toDigits 10 (numerator / denominator)).length :=
      List.length_pos_of_ne_nil Nat.toDigits_ne_nil
    have leading := ten_pow_length_le (Nat.div_pos whole nonzero).ne'
    rw [← Nat.cast_pred some, zpow_natCast]
    calc (10 : ℚ) ^ ((Nat.toDigits 10 (numerator / denominator)).length - 1)
        ≤ (numerator / denominator : ℕ) := by exact_mod_cast leading
      _ ≤ numerator / denominator := Nat.cast_div_le
  next =>
    have room := (Nat.div_lt_iff_lt_mul positive).mp (lt_ten_pow_length ((denominator - 1) / numerator))
    generalize (Nat.toDigits 10 ((denominator - 1) / numerator)).length = places at room ⊢
    have covered : (denominator : ℚ) ≤ 10 ^ places * numerator := by exact_mod_cast (by omega)
    rw [zpow_neg, zpow_natCast, le_div_iff₀ above, inv_mul_le_iff₀ (by positivity)]
    exact covered

end Scales

section Intervals

variable {interval : Interval} {grid : ℤ} {units bound : ℕ} {x : ℚ}

def Interval.Holds (interval : Interval) (x : ℚ) : Prop :=
  if interval.closed then (interval.low / interval.denominator : ℚ) ≤ x ∧ x ≤ interval.high / interval.denominator
  else (interval.low / interval.denominator : ℚ) < x ∧ x < interval.high / interval.denominator

theorem point_eq (nonzero : 0 < interval.denominator) :
    (units * 10 ^ grid : ℚ) = (units * interval.denominator * powerOfTen grid : ℕ) /
      (interval.denominator * powerOfTen (-grid) : ℕ) := by
  have scale : (0 : ℚ) < powerOfTen (-grid) := by exact_mod_cast powerOfTen_pos
  have whole : (0 : ℚ) < interval.denominator := by exact_mod_cast nonzero
  rw [← powerOfTen_div]
  push_cast
  field_simp

theorem fraction_eq (grid : ℤ) : (bound / interval.denominator : ℚ) = (bound * powerOfTen (-grid) : ℕ) /
    (interval.denominator * powerOfTen (-grid) : ℕ) := by
  have scale : (0 : ℚ) < powerOfTen (-grid) := by exact_mod_cast powerOfTen_pos
  push_cast
  field_simp

theorem le_point_iff (nonzero : 0 < interval.denominator) :
    (bound / interval.denominator : ℚ) ≤ units * 10 ^ grid ↔
      bound * powerOfTen (-grid) ≤ units * interval.denominator * powerOfTen grid := by
  have common : (0 : ℚ) < (interval.denominator * powerOfTen (-grid) : ℕ) := by
    exact_mod_cast Nat.mul_pos nonzero powerOfTen_pos
  rw [point_eq nonzero, fraction_eq grid, div_le_div_iff_of_pos_right common, Nat.cast_le]

theorem point_le_iff (nonzero : 0 < interval.denominator) :
    (units * 10 ^ grid : ℚ) ≤ bound / interval.denominator ↔
      units * interval.denominator * powerOfTen grid ≤ bound * powerOfTen (-grid) := by
  have common : (0 : ℚ) < (interval.denominator * powerOfTen (-grid) : ℕ) := by
    exact_mod_cast Nat.mul_pos nonzero powerOfTen_pos
  rw [point_eq nonzero, fraction_eq grid, div_le_div_iff_of_pos_right common, Nat.cast_le]

theorem contains_iff (nonzero : 0 < interval.denominator) :
    interval.contains grid units = true ↔ interval.Holds (units * 10 ^ grid) := by
  simp only [Interval.contains, Interval.Holds, ← not_le, le_point_iff nonzero, point_le_iff nonzero]
  split <;> simp

theorem isSome_onGrid? (nonzero : 0 < interval.denominator) (low : interval.low < interval.value)
    (high : interval.value < interval.high)
    (fine : (10 : ℚ) ^ grid < interval.high / interval.denominator - interval.low / interval.denominator) :
    (interval.onGrid? grid).isSome = true := by
  set below := interval.value * powerOfTen (-grid) / (interval.denominator * powerOfTen grid) with division
  have unit : 0 < interval.denominator * powerOfTen grid := Nat.mul_pos nonzero powerOfTen_pos
  have scale : (0 : ℚ) < interval.denominator := by exact_mod_cast nonzero
  have reached : (below * 10 ^ grid : ℚ) ≤ interval.value / interval.denominator := by
    rw [point_le_iff nonzero, mul_assoc]
    exact Nat.div_mul_le_self _ _
  have above : (interval.value / interval.denominator : ℚ) < (below + 1 : ℕ) * 10 ^ grid := by
    rw [← not_le, point_le_iff nonzero, not_le, mul_assoc, mul_comm (below + 1)]
    exact Nat.lt_mul_div_succ _ unit
  have first : (interval.low / interval.denominator : ℚ) < interval.value / interval.denominator := by
    gcongr
  have last : (interval.value / interval.denominator : ℚ) < interval.high / interval.denominator := by
    gcongr
  -- if both points next to the value were outside, the grid would be as wide as the interval
  have either : interval.contains grid below = true ∨ interval.contains grid (below + 1) = true := by
    rw [contains_iff nonzero, contains_iff nonzero]
    by_contra neither
    obtain ⟨left, right⟩ := not_or.mp neither
    have outside : (below * 10 ^ grid : ℚ) ≤ interval.low / interval.denominator := by
      by_contra inside
      refine left ?_
      rw [Interval.Holds]
      split <;> constructor <;> linarith
    have beyond : (interval.high / interval.denominator : ℚ) ≤ (below + 1 : ℕ) * 10 ^ grid := by
      by_contra inside
      refine right ?_
      rw [Interval.Holds]
      split <;> constructor <;> linarith
    push_cast at beyond
    linarith
  rw [Interval.onGrid?]
  simp only [← division]
  split
  · rfl
  · rfl
  next left right =>
    rw [left, right] at either
    exact absurd either (by decide)
  · split <;> rfl

end Intervals

section Digits

variable {mantissa : ℕ} {exponent : ℤ} {x : ℚ}

def Digits.number (digits : Digits) : ℚ := digits.significand * 10 ^ digits.exponent

theorem Digits.number_trim (fuel : ℕ) (digits : Digits) : (digits.trim fuel).number = digits.number := by
  induction fuel generalizing digits with
  | zero => rfl
  | succ fuel ih =>
    rw [trim]
    split
    next zero =>
      have split : (digits.significand : ℚ) = (digits.significand / 10 : ℕ) * 10 := by
        exact_mod_cast (Nat.div_mul_cancel (Nat.dvd_of_mod_eq_zero zero)).symm
      rw [ih, number, number, split, zpow_add₀ (by norm_num), zpow_one]
      ring
    next => rfl

theorem around_denominator_pos : 0 < (Interval.around mantissa exponent).denominator := by
  simp only [Interval.around, Nat.shiftLeft_eq]
  positivity

theorem around_scale (units : ℕ) :
    ((units * 1 <<< (exponent - 2).toNat : ℕ) / (Interval.around mantissa exponent).denominator : ℚ) =
      units * 2 ^ exponent / 4 := by
  have scale := pow_toNat_div (two_ne_zero : (2 : ℚ) ≠ 0) (exponent - 2)
  rw [neg_sub, zpow_sub₀ two_ne_zero] at scale
  simp only [Interval.around, Nat.shiftLeft_eq, one_mul]
  push_cast
  rw [mul_div_assoc, scale]
  norm_num
  ring

theorem around_low (positive : 0 < mantissa) :
    ((Interval.around mantissa exponent).low / (Interval.around mantissa exponent).denominator : ℚ) =
      (mantissa - if mantissa = leadingBit ∧ exponent ≠ -1074 then 1 / 4 else 1 / 2) * 2 ^ exponent := by
  refine (around_scale _).trans ?_
  rw [Nat.cast_sub (by split <;> omega)]
  split <;> push_cast <;> ring

theorem around_high :
    ((Interval.around mantissa exponent).high / (Interval.around mantissa exponent).denominator : ℚ) =
      (mantissa + 1 / 2) * 2 ^ exponent := by
  refine (around_scale _).trans ?_
  push_cast
  ring

theorem around_value :
    ((Interval.around mantissa exponent).value / (Interval.around mantissa exponent).denominator : ℚ) =
      mantissa * 2 ^ exponent := by
  refine (around_scale _).trans ?_
  push_cast
  ring

theorem nearest_of_holds (positive : 0 < mantissa) (inside : (Interval.around mantissa exponent).Holds x) :
    Nearest x mantissa exponent := by
  have unit : (0 : ℚ) < 2 ^ exponent := by positivity
  have parity : (Interval.around mantissa exponent).closed = (mantissa % 2 == 0) := rfl
  rw [Interval.Holds, around_low positive, around_high, parity, ← le_div_iff₀ unit, ← div_le_iff₀ unit,
    ← lt_div_iff₀ unit, ← div_lt_iff₀ unit] at inside
  by_cases even : mantissa % 2 = 0
  · rw [if_pos (beq_iff_eq.mpr even)] at inside
    obtain ⟨low, high⟩ := inside
    refine ⟨⟨?_, high, fun odd => by omega⟩, fun border least => ?_⟩
    · split at low <;> linarith
    · rw [if_pos ⟨border, least⟩, border] at low
      exact_mod_cast low
  · rw [if_neg (by simpa using even)] at inside
    obtain ⟨low, high⟩ := inside
    have inner : mantissa ≠ leadingBit := by
      rintro rfl
      exact even rfl
    rw [if_neg fun border => inner border.left] at low
    exact ⟨⟨low.le, high.le, fun _ => ⟨low, high⟩⟩, fun border _ => absurd border inner⟩

/-- Seventeen digits are enough: the last of the grids is finer than the interval of a real. -/
theorem grid_lt_width (canonical : Canonical mantissa exponent) {leading : ℤ}
    (below : (10 : ℚ) ^ leading ≤ mantissa * 2 ^ exponent) :
    (10 : ℚ) ^ (leading - 16) <
      (mantissa + 1 / 2) * 2 ^ exponent -
        (mantissa - if mantissa = leadingBit ∧ exponent ≠ -1074 then 1 / 4 else 1 / 2) * 2 ^ exponent := by
  have unit : (0 : ℚ) < 2 ^ exponent := by positivity
  have small : (mantissa : ℚ) < 2 ^ 53 := by exact_mod_cast canonical.small
  have grid : (10 : ℚ) ^ (leading - 16) ≤ mantissa / 10 ^ 16 * 2 ^ exponent := by
    rw [zpow_sub₀ (by norm_num), div_mul_eq_mul_div]
    exact div_le_div_of_nonneg_right below (by positivity)
  refine grid.trans_lt ?_
  rw [← sub_mul]
  gcongr
  split
  next border =>
    rw [border.left, leadingBit]
    norm_num
  next => linarith

theorem holds_shortest {interval : Interval} (nonzero : 0 < interval.denominator)
    (low : interval.low < interval.value) (high : interval.value < interval.high)
    (fine : (10 : ℚ) ^ (magnitude interval.value interval.denominator - 16) <
      interval.high / interval.denominator - interval.low / interval.denominator) :
    interval.Holds interval.shortest.number := by
  rw [Interval.shortest]
  split
  next digits found =>
    obtain ⟨grid, -, point⟩ := List.exists_of_findSome?_eq_some found
    obtain ⟨units, on, rfl⟩ := Option.map_eq_some_iff.mp point
    rw [Digits.number_trim]
    exact (contains_iff nonzero).mp (Interval.contains_of_onGrid? on)
  next none =>
    have missing := List.findSome?_eq_none_iff.mp none _
      (List.mem_map.mpr ⟨16, List.mem_range.mpr (by decide), rfl⟩)
    have last := isSome_onGrid? nonzero low high fine
    rw [Option.map_eq_none_iff, Nat.cast_ofNat] at missing
    rw [missing] at last
    cases last

/-- The shortest decimal of a real is one for which the real is the nearest. -/
theorem nearest_shortest (canonical : Canonical mantissa exponent) :
    Nearest (shortest mantissa exponent).number mantissa exponent := by
  have positive : 0 < mantissa := canonical.positive
  have nonzero : 0 < (Interval.around mantissa exponent).denominator := around_denominator_pos
  have scale : 0 < 1 <<< (exponent - 2).toNat := by
    rw [Nat.shiftLeft_eq]
    positivity
  have low : (Interval.around mantissa exponent).low < (Interval.around mantissa exponent).value :=
    Nat.mul_lt_mul_of_pos_right (by split <;> omega) scale
  have high : (Interval.around mantissa exponent).value < (Interval.around mantissa exponent).high :=
    Nat.mul_lt_mul_of_pos_right (by omega) scale
  refine nearest_of_holds positive (holds_shortest nonzero low high ?_)
  rw [around_low positive, around_high]
  exact grid_lt_width canonical (around_value ▸ zpow_magnitude_le (by omega) nonzero)

theorem shortest_significand_ne_zero (canonical : Canonical mantissa exponent) :
    (shortest mantissa exponent).significand ≠ 0 :=
  ne_zero_of_nearest canonical (nearest_shortest canonical)

end Digits

end TypedTree.Decimal
