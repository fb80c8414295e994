import Mathlib
/-! Rounding to the nearest 64-bit real, on the exact value of a number. A mantissa with a note on what is
behind it is shifted, rounded and shifted again; the outcome depends on the number alone. -/

namespace TypedTree.Decimal

open Float.Model (totalExponent Format UnpackedFloat)
open Float.Model.UnpackedFloat hiding mul div

section Whole

variable {accuracy : Accuracy} {mantissa whole : ℕ} {x fraction : ℚ}

/-- What a note on the part behind a mantissa says about the part. -/
def Describes (accuracy : Accuracy) (fraction : ℚ) : Prop :=
  match accuracy with
  | .exact => fraction = 0
  | .inexact .lt => 0 < fraction ∧ fraction < 1 / 2
  | .inexact .eq => fraction = 1 / 2
  | .inexact .gt => 1 / 2 < fraction ∧ fraction < 1

theorem Describes.nonneg (described : Describes accuracy fraction) : 0 ≤ fraction := by
  rcases accuracy with _ | _ | _ | _ <;> simp only [Describes] at described <;> linarith

theorem Describes.lt_one (described : Describes accuracy fraction) : fraction < 1 := by
  rcases accuracy with _ | _ | _ | _ <;> simp only [Describes] at described <;> linarith

/-- A number for which a whole number is the nearest, the even one of two that are equally near. -/
structure RoundsTo (x : ℚ) (whole : ℕ) : Prop where
  low : whole - 1 / 2 ≤ x
  high : x ≤ whole + 1 / 2
  odd : whole % 2 = 1 → whole - 1 / 2 < x ∧ x < whole + 1 / 2

theorem roundToNearestEven_eq (described : Describes accuracy (x - mantissa)) (rounds : RoundsTo x whole) :
    accuracy.roundToNearestEven mantissa = whole := by
  obtain ⟨low, high, odd⟩ := rounds
  cases accuracy with
  | exact =>
    simp only [Describes] at described
    have above : (whole : ℚ) < mantissa + 1 := by linarith
    have below : (mantissa : ℚ) < whole + 1 := by linarith
    norm_cast at above below
    simp only [Accuracy.roundToNearestEven]
    omega
  | inexact order =>
    cases order with
    | lt =>
      simp only [Describes] at described
      have above : (whole : ℚ) < mantissa + 1 := by linarith
      have below : (mantissa : ℚ) < whole + 1 := by linarith
      norm_cast at above below
      simp only [Accuracy.roundToNearestEven]
      omega
    | eq =>
      simp only [Describes] at described
      have above : (whole : ℚ) < mantissa + 2 := by linarith
      have below : (mantissa : ℚ) < whole + 1 := by linarith
      norm_cast at above below
      -- of the two whole numbers next to the number, the odd one is too far away
      have even : whole % 2 = 0 := by
        by_contra other
        obtain ⟨left, right⟩ := odd (by omega)
        have above : (whole : ℚ) < mantissa + 1 := by linarith
        have below : (mantissa : ℚ) < whole := by linarith
        norm_cast at above below
        omega
      simp only [Accuracy.roundToNearestEven]
      omega
    | gt =>
      simp only [Describes] at described
      have above : (whole : ℚ) < mantissa + 2 := by linarith
      have below : (mantissa : ℚ) < whole := by linarith
      norm_cast at above below
      simp only [Accuracy.roundToNearestEven]
      omega

theorem describes_half_of_even {old new : ℕ} {roundBit stickyBit : Bool}
    (described : Describes (ExtendedMantissa.mk old roundBit stickyBit).accuracy fraction) :
    Describes (ExtendedMantissa.mk new false (roundBit || stickyBit)).accuracy (fraction / 2) := by
  cases roundBit <;> cases stickyBit <;>
    simp only [ExtendedMantissa.accuracy, Describes, Bool.or_false, Bool.or_true] at described ⊢ <;>
    first | linarith | exact ⟨by linarith, by linarith⟩

theorem describes_half_of_odd {old new : ℕ} {roundBit stickyBit : Bool}
    (described : Describes (ExtendedMantissa.mk old roundBit stickyBit).accuracy fraction) :
    Describes (ExtendedMantissa.mk new true (roundBit || stickyBit)).accuracy ((fraction + 1) / 2) := by
  cases roundBit <;> cases stickyBit <;>
    simp only [ExtendedMantissa.accuracy, Describes, Bool.or_false, Bool.or_true] at described ⊢ <;>
    first | linarith | exact ⟨by linarith, by linarith⟩

theorem describes_shiftRightOne {extended : ExtendedMantissa}
    (described : Describes extended.accuracy (x - extended.mantissa)) :
    Describes extended.shiftRightOne.accuracy (x / 2 - extended.shiftRightOne.mantissa) := by
  obtain ⟨mantissa, roundBit, stickyBit⟩ := extended
  have split : (mantissa : ℚ) = 2 * (mantissa / 2 : ℕ) + (mantissa % 2 : ℕ) := by
    exact_mod_cast (Nat.div_add_mod mantissa 2).symm
  rcases Nat.mod_two_eq_zero_or_one mantissa with even | odd
  · have half : x / 2 - (mantissa / 2 : ℕ) = (x - mantissa) / 2 := by
      rw [split, even, Nat.cast_zero]
      ring
    simp only [ExtendedMantissa.shiftRightOne, even, half]
    exact describes_half_of_even described
  · have half : x / 2 - (mantissa / 2 : ℕ) = (x - mantissa + 1) / 2 := by
      rw [split, odd, Nat.cast_one]
      ring
    simp only [ExtendedMantissa.shiftRightOne, odd, half]
    exact describes_half_of_odd described

theorem describes_shiftRight {extended : ExtendedMantissa} (count : ℕ)
    (described : Describes extended.accuracy (x - extended.mantissa)) :
    Describes (extended >>> count).accuracy (x / 2 ^ count - (extended >>> count).mantissa) := by
  induction count with
  | zero =>
    rw [pow_zero, div_one]
    exact described
  | succ count ih =>
    rw [pow_succ, ← div_div]
    exact describes_shiftRightOne ih

end Whole

/-- The mantissa and the exponent of a positive 64-bit real: all bits of the mantissa are used unless the
exponent is the least. -/
structure Canonical (mantissa : ℕ) (exponent : ℤ) : Prop where
  positive : 0 < mantissa
  small : mantissa < 2 ^ 53
  full : 2 ^ 52 ≤ mantissa ∨ exponent = -1074
  low : -1074 ≤ exponent
  high : exponent ≤ 971

/-- A number for which a real is the nearest. Below a power of two the next real is only half as far away. -/
structure Nearest (x : ℚ) (mantissa : ℕ) (exponent : ℤ) : Prop where
  rounds : RoundsTo (x / 2 ^ exponent) mantissa
  border : mantissa = 2 ^ 52 → exponent ≠ -1074 → 2 ^ 52 - 1 / 4 ≤ x / 2 ^ exponent

section Reals

variable {accuracy : Accuracy} {mantissa whole : ℕ} {exponent scale : ℤ} {x : ℚ}

theorem targetExponent_eq (total : ℤ) : Format.binary64.targetExponent total = max (total - 53) (-1074) := rfl

theorem lt_total (described : Describes accuracy (x / 2 ^ scale - mantissa)) :
    x < 2 ^ totalExponent mantissa scale := by
  have room : (mantissa : ℚ) + 1 ≤ 2 ^ (mantissa.log2 + 1) := by
    exact_mod_cast Nat.lt_log2_self
  have below : x / 2 ^ scale < 2 ^ (mantissa.log2 + 1) := by
    have := described.lt_one
    linarith
  rw [div_lt_iff₀ (by positivity)] at below
  rw [totalExponent, zpow_add₀ two_ne_zero]
  exact_mod_cast below

theorem le_of_total (described : Describes accuracy (x / 2 ^ scale - mantissa)) (positive : mantissa ≠ 0) :
    2 ^ (totalExponent mantissa scale - 1) ≤ x := by
  have full : (2 : ℚ) ^ mantissa.log2 ≤ mantissa := by
    exact_mod_cast Nat.log2_self_le positive
  have above : (2 : ℚ) ^ mantissa.log2 ≤ x / 2 ^ scale := by
    have := described.nonneg
    linarith
  rw [le_div_iff₀ (by positivity)] at above
  rw [totalExponent, show (mantissa.log2 : ℤ) + 1 + scale - 1 = mantissa.log2 + scale by ring,
    zpow_add₀ two_ne_zero]
  exact_mod_cast above

theorem lt_zpow_add_iff (power : ℕ) : x < 2 ^ (power + exponent) ↔ x / 2 ^ exponent < 2 ^ power := by
  rw [div_lt_iff₀ (by positivity), zpow_add₀ two_ne_zero, zpow_natCast]

/-- The scale on which a number is rounded is that of its nearest real; just below a power of two it is the
next smaller one. -/
theorem target_of_nearest (canonical : Canonical whole exponent) (nearest : Nearest x whole exponent)
    (described : Describes accuracy (x / 2 ^ scale - mantissa))
    (fine : scale ≤ Format.binary64.targetExponent (totalExponent mantissa scale)) :
    Format.binary64.targetExponent (totalExponent mantissa scale) = exponent ∨
      Format.binary64.targetExponent (totalExponent mantissa scale) = exponent - 1 ∧ whole = 2 ^ 52 ∧
        exponent ≠ -1074 ∧ x < 2 ^ (52 + exponent) := by
  obtain ⟨-, small, full, low, -⟩ := canonical
  obtain ⟨⟨above, below, -⟩, border⟩ := nearest
  rw [targetExponent_eq] at fine ⊢
  -- an empty mantissa says nothing about the number, but then the scale is already a fine one
  have least : mantissa = 0 → totalExponent mantissa scale ≤ -1073 := by
    rintro rfl
    simp only [totalExponent, Nat.log2_zero] at fine ⊢
    omega
  have total_le : ∀ {bound : ℤ}, x < 2 ^ bound → -1074 < bound → totalExponent mantissa scale ≤ bound := by
    intro bound less high
    by_cases empty : mantissa = 0
    · have := least empty
      omega
    · have := (zpow_lt_zpow_iff_right₀ one_lt_two).mp ((le_of_total described empty).trans_lt less)
      omega
  have lt_total : ∀ {bound : ℤ}, 2 ^ bound ≤ x → bound < totalExponent mantissa scale := fun less =>
    (zpow_lt_zpow_iff_right₀ one_lt_two).mp (less.trans_lt (lt_total described))
  by_cases border_below : x < 2 ^ (52 + exponent)
  · have total := total_le border_below (by omega)
    by_cases least_scale : exponent = -1074
    · left
      omega
    · right
      -- rounding carries into the power of two, so the number is on the finer side of it
      have scaled := (lt_zpow_add_iff 52).mp border_below
      have whole_le : (whole : ℚ) < 2 ^ 52 + 1 := by linarith
      norm_cast at whole_le
      have whole_eq : whole = 2 ^ 52 := by omega
      have near := border whole_eq least_scale
      have half : ¬ x < 2 ^ ((51 : ℕ) + exponent) := by
        rw [lt_zpow_add_iff]
        linarith
      have := lt_total (not_lt.mp half)
      refine ⟨?_, whole_eq, least_scale, border_below⟩
      push_cast at this
      omega
  · left
    have := lt_total (not_lt.mp border_below)
    have whole_lt : (whole : ℚ) + 1 ≤ 2 ^ 53 := by exact_mod_cast small
    have upper : x < 2 ^ ((53 : ℕ) + exponent) := by
      rw [lt_zpow_add_iff]
      linarith
    have := total_le upper (by omega)
    push_cast at this
    omega

theorem describes_ofMantissaAndAccuracy (described : Describes accuracy (x - mantissa)) :
    Describes (ExtendedMantissa.ofMantissaAndAccuracy mantissa accuracy).accuracy
      (x - (ExtendedMantissa.ofMantissaAndAccuracy mantissa accuracy).mantissa) := by
  rcases accuracy with _ | _ | _ | _ <;> exact described

theorem describes_shiftToTargetExponent (described : Describes accuracy (x / 2 ^ scale - mantissa))
    {target : ℤ} (aims : Format.binary64.targetExponent (totalExponent mantissa scale) = target)
    (fine : scale ≤ target) :
    (shiftToTargetExponent Format.binary64 mantissa scale accuracy).2 = target ∧
      Describes (shiftToTargetExponent Format.binary64 mantissa scale accuracy).1.accuracy
        (x / 2 ^ target - (shiftToTargetExponent Format.binary64 mantissa scale accuracy).1.mantissa) := by
  obtain ⟨count, rfl⟩ : ∃ count : ℕ, target = scale + count := ⟨(target - scale).toNat, by omega⟩
  have shift : (scale + count - scale).toNat = count := by omega
  have scaled : x / 2 ^ (scale + count) = x / 2 ^ scale / 2 ^ count := by
    rw [zpow_add₀ two_ne_zero, zpow_natCast, div_div]
  simp only [shiftToTargetExponent, shiftToExponent, aims, shift, scaled]
  exact ⟨trivial, describes_shiftRight count (describes_ofMantissaAndAccuracy described)⟩

theorem shiftToTargetExponent_exact (small : mantissa < 2 ^ 53) (low : -1074 ≤ exponent) :
    shiftToTargetExponent Format.binary64 mantissa exponent .exact = (⟨mantissa, false, false⟩, exponent) := by
  have bits : mantissa.log2 ≤ 52 := by
    by_cases empty : mantissa = 0
    · rw [empty, Nat.log2_zero]
      omega
    · have := (Nat.log2_lt empty).mpr small
      omega
  have aims : (Format.binary64.targetExponent (totalExponent mantissa exponent) - exponent).toNat = 0 := by
    rw [targetExponent_eq, totalExponent]
    omega
  simp only [shiftToTargetExponent, shiftToExponent, aims, Nat.cast_zero, add_zero]
  rfl

theorem shiftToTargetExponent_carry (low : -1074 ≤ exponent) :
    shiftToTargetExponent Format.binary64 (2 ^ 53) exponent .exact =
      (⟨2 ^ 52, false, false⟩, exponent + 1) := by
  have aims : (Format.binary64.targetExponent (totalExponent (2 ^ 53) exponent) - exponent).toNat = 1 := by
    rw [targetExponent_eq, totalExponent, Nat.log2_two_pow]
    omega
  simp only [shiftToTargetExponent, shiftToExponent, aims, Nat.cast_one]
  rfl

/-- Rounding finds the real that is nearest to a number. -/
theorem roundWithAccuracy_eq (canonical : Canonical whole exponent) (nearest : Nearest x whole exponent)
    (described : Describes accuracy (x / 2 ^ scale - mantissa))
    (fine : scale ≤ Format.binary64.targetExponent (totalExponent mantissa scale)) (sign : Sign) :
    roundWithAccuracy Format.binary64 sign mantissa scale accuracy =
      .finite sign whole exponent canonical.positive := by
  rcases target_of_nearest canonical nearest described fine with aims | ⟨aims, rfl, least, border⟩
  · obtain ⟨scaled, rounded⟩ := describes_shiftToTargetExponent described aims (aims ▸ fine)
    have round := roundToNearestEven_eq rounded nearest.rounds
    have kept := shiftToTargetExponent_exact canonical.small canonical.low
    simp only [roundWithAccuracy, ExtendedMantissa.roundedMantissa, round, scaled, kept]
    rw [dif_neg canonical.positive.ne']
  -- on the finer scale the number is just below `2 ^ 53`, which a second shift makes `2 ^ 52` again
  · obtain ⟨scaled, rounded⟩ := describes_shiftToTargetExponent described aims (aims ▸ fine)
    have doubled : x / 2 ^ (exponent - 1) = 2 * (x / 2 ^ exponent) := by
      rw [zpow_sub_one₀ two_ne_zero]
      field_simp
    have near := nearest.border rfl least
    have below := (lt_zpow_add_iff 52).mp border
    have rounds : RoundsTo (x / 2 ^ (exponent - 1)) (2 ^ 53) := by
      rw [doubled]
      refine ⟨?_, ?_, fun odd => absurd odd (by decide)⟩ <;> push_cast <;> linarith
    have round := roundToNearestEven_eq rounded rounds
    have low : -1074 ≤ exponent - 1 := by
      have := canonical.low
      omega
    have carry := shiftToTargetExponent_carry low
    simp only [roundWithAccuracy, ExtendedMantissa.roundedMantissa, round, scaled, carry]
    rw [dif_neg (by decide)]
    congr 1
    ring

theorem mul_eq {first second : ℕ} {power other : ℤ} (canonical : Canonical whole exponent)
    (nearest : Nearest (first * 2 ^ power * (second * 2 ^ other)) whole exponent) (long : 2 ^ 52 ≤ first)
    (positive : 0 < first) (nonzero : 0 < second) (sign sign' : Sign) :
    UnpackedFloat.mul Format.binary64 (.finite sign first power positive) (.finite sign' second other nonzero) =
      .finite (sign * sign') whole exponent canonical.positive := by
  have product : (first * 2 ^ power * (second * 2 ^ other) : ℚ) / 2 ^ (power + other) = (first * second : ℕ) := by
    rw [zpow_add₀ two_ne_zero, Nat.cast_mul]
    field_simp
  have described : Describes .exact
      ((first * 2 ^ power * (second * 2 ^ other) : ℚ) / 2 ^ (power + other) - (first * second : ℕ)) :=
    sub_eq_zero.mpr product
  refine roundWithAccuracy_eq canonical nearest described ?_ _
  have bits : 52 ≤ (first * second).log2 :=
    (Nat.le_log2 (by positivity)).mpr (long.trans (Nat.le_mul_of_pos_right first nonzero))
  rw [targetExponent_eq, totalExponent]
  omega

theorem describes_accuracyOfFraction {numerator denominator : ℕ} (less : numerator < denominator) :
    Describes (accuracyOfFraction numerator denominator) (numerator / denominator) := by
  have positive : (0 : ℚ) < denominator := by exact_mod_cast (Nat.zero_le numerator).trans_lt less
  rw [accuracyOfFraction]
  split
  next empty => simp [Describes, empty]
  next some =>
    have above : (0 : ℚ) < numerator := by exact_mod_cast Nat.pos_of_ne_zero some
    rcases order : compare (2 * numerator) denominator with _ | _ | _
    · have half : (2 * numerator : ℚ) < denominator := by exact_mod_cast Nat.compare_eq_lt.mp order
      exact ⟨by positivity, by rw [div_lt_iff₀ positive]; linarith⟩
    · have half : (2 * numerator : ℚ) = denominator := by exact_mod_cast Nat.compare_eq_eq.mp order
      exact (div_eq_iff positive.ne').mpr (by linarith)
    · have half : (denominator : ℚ) < 2 * numerator := by exact_mod_cast Nat.compare_eq_gt.mp order
      have less : (numerator : ℚ) < denominator := by exact_mod_cast less
      exact ⟨by rw [lt_div_iff₀ positive]; linarith, by rw [div_lt_one positive]; exact less⟩

theorem div_eq {first second : ℕ} {power other : ℤ} (canonical : Canonical whole exponent)
    (nearest : Nearest (first * 2 ^ power / (second * 2 ^ other)) whole exponent)
    (positive : 0 < first) (nonzero : 0 < second) (sign sign' : Sign) :
    UnpackedFloat.div Format.binary64 (.finite sign first power positive) (.finite sign' second other nonzero) =
      .finite (sign / sign') whole exponent canonical.positive := by
  let total := totalExponent first power - totalExponent second other
  let scale := min (power - other) (Format.binary64.targetExponent total)
  let shifted := first <<< (power - other - scale).toNat
  set x : ℚ := first * 2 ^ power / (second * 2 ^ other) with value
  have above : (0 : ℚ) < second := by exact_mod_cast nonzero
  have scaled : x / 2 ^ scale = (shifted : ℚ) / second := by
    have shift : (2 : ℚ) ^ (power - other - scale).toNat = 2 ^ (power - other - scale) := by
      rw [← zpow_natCast, Int.toNat_of_nonneg (by omega)]
    simp only [shifted, Nat.shiftLeft_eq, Nat.cast_mul, Nat.cast_pow, Nat.cast_ofNat, shift, value,
      zpow_sub₀ (two_ne_zero : (2 : ℚ) ≠ 0)]
    field_simp
  have described : Describes (accuracyOfFraction (shifted % second) second)
      (x / 2 ^ scale - (shifted / second : ℕ)) := by
    have parts : (shifted : ℚ) = second * (shifted / second : ℕ) + (shifted % second : ℕ) := by
      exact_mod_cast (Nat.div_add_mod shifted second).symm
    have behind : x / 2 ^ scale - (shifted / second : ℕ) = ((shifted % second : ℕ) : ℚ) / second := by
      rw [scaled, parts]
      field_simp
      ring
    rw [behind]
    exact describes_accuracyOfFraction (Nat.mod_lt _ nonzero)
  -- the quotient is above half of `2 ^ total`, so that the scale is fine enough for it
  have fine : scale ≤ Format.binary64.targetExponent (totalExponent (shifted / second) scale) := by
    have low : (2 : ℚ) ^ (total - 1) < x := by
      have full : (2 : ℚ) ^ first.log2 ≤ first := by exact_mod_cast Nat.log2_self_le positive.ne'
      have room : (second : ℚ) < 2 ^ (second.log2 + 1) := by exact_mod_cast Nat.lt_log2_self
      rw [value, lt_div_iff₀ (by positivity)]
      calc (2 : ℚ) ^ (total - 1) * (second * 2 ^ other)
          < 2 ^ (total - 1) * (2 ^ (second.log2 + 1) * 2 ^ other) := by gcongr
        _ = 2 ^ first.log2 * 2 ^ power := by
          simp only [← zpow_natCast, ← zpow_add₀ (two_ne_zero : (2 : ℚ) ≠ 0), total, totalExponent]
          congr 1
          push_cast
          ring
        _ ≤ first * 2 ^ power := by gcongr
    have room := (zpow_lt_zpow_iff_right₀ one_lt_two).mp (low.trans (lt_total described))
    have aimed : scale ≤ Format.binary64.targetExponent total := min_le_right _ _
    rw [targetExponent_eq] at aimed ⊢
    omega
  exact roundWithAccuracy_eq canonical nearest described fine _

end Reals

end TypedTree.Decimal
