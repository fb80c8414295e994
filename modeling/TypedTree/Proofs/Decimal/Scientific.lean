import TypedTree.Decimal.Numeral
import TypedTree.Proofs.Decimal.Bits
/-! Reals from decimals. The real that a mantissa and a power of ten are read as is the nearest one. -/

namespace TypedTree.Decimal

open Float.Model (Format UnpackedFloat totalExponent)
open Float.Model.UnpackedFloat hiding mul div

def Canonical.real {mantissa : ℕ} {exponent : ℤ} (canonical : Canonical mantissa exponent) : Float :=
  ⟨.pack (.finite .positive mantissa exponent canonical.positive)⟩

section Arithmetic

variable {whole first second : ℕ} {exponent power other : ℤ} {x : ℚ}

theorem Canonical.real_div (left : Canonical first power) (right : Canonical second other)
    (canonical : Canonical whole exponent)
    (nearest : Nearest (first * 2 ^ power / (second * 2 ^ other)) whole exponent) :
    left.real / right.real = canonical.real := by
  change Float.ofModel (.pack (UnpackedFloat.div Format.binary64 (Float.Model.pack _).unpack
    (Float.Model.pack _).unpack)) = _
  rw [unpack_pack left, unpack_pack right, div_eq canonical nearest]
  rfl

theorem Canonical.real_mul (left : Canonical first power) (right : Canonical second other)
    (canonical : Canonical whole exponent) (long : 2 ^ 52 ≤ first)
    (nearest : Nearest (first * 2 ^ power * (second * 2 ^ other)) whole exponent) :
    left.real * right.real = canonical.real := by
  change Float.ofModel (.pack (UnpackedFloat.mul Format.binary64 (Float.Model.pack _).unpack
    (Float.Model.pack _).unpack)) = _
  rw [unpack_pack left, unpack_pack right, mul_eq canonical nearest long]
  rfl

theorem nearest_self : Nearest (whole * 2 ^ exponent) whole exponent := by
  have scaled : (whole * 2 ^ exponent : ℚ) / 2 ^ exponent = whole := by field_simp
  refine ⟨⟨?_, ?_, fun _ => ⟨?_, ?_⟩⟩, fun border _ => ?_⟩ <;> rw [scaled]
  · linarith
  · linarith
  · linarith
  · linarith
  · rw [border]
    norm_num

theorem log2_shiftLeft {mantissa : ℕ} (positive : mantissa ≠ 0) (count : ℕ) :
    (mantissa <<< count).log2 = mantissa.log2 + count := by
  induction count with
  | zero => rfl
  | succ count ih =>
    rw [Nat.shiftLeft_succ, Nat.log2_two_mul (by simp [Nat.shiftLeft_eq, positive]), ih]
    rfl

theorem round_eq (canonical : Canonical whole exponent) {mantissa : ℕ} {scale : ℤ} (positive : mantissa ≠ 0)
    (nearest : Nearest (mantissa * 2 ^ scale) whole exponent) (sign : Sign) :
    UnpackedFloat.round Format.binary64 sign mantissa scale =
      .finite sign whole exponent canonical.positive := by
  let count := (scale - Format.binary64.targetExponent (totalExponent mantissa scale)).toNat
  have scaled : (mantissa * 2 ^ scale : ℚ) / 2 ^ (scale - count : ℤ) = (mantissa <<< count : ℕ) := by
    rw [zpow_sub₀ two_ne_zero, zpow_natCast, Nat.shiftLeft_eq]
    push_cast
    field_simp
  have described : Describes .exact
      ((mantissa * 2 ^ scale : ℚ) / 2 ^ (scale - count : ℤ) - (mantissa <<< count : ℕ)) :=
    sub_eq_zero.mpr scaled
  refine roundWithAccuracy_eq canonical nearest described ?_ sign
  have total : totalExponent (mantissa <<< count) (scale - count) = totalExponent mantissa scale := by
    simp only [totalExponent, log2_shiftLeft positive]
    omega
  rw [total]
  omega

theorem exists_canonical_of_lt {number : ℕ} (positive : 0 < number) (small : number < 2 ^ 53) :
    ∃ whole exponent, ∃ canonical : Canonical whole exponent, 2 ^ 52 ≤ whole ∧
      (whole * 2 ^ exponent : ℚ) = number ∧ number.toUInt64.toFloat = canonical.real := by
  have bits : number.log2 ≤ 52 := by
    have := (Nat.log2_lt positive.ne').mpr small
    omega
  have long : (number <<< (52 - number.log2)).log2 = 52 := by
    rw [log2_shiftLeft positive.ne']
    omega
  have shifted : number <<< (52 - number.log2) ≠ 0 := by
    rw [Nat.shiftLeft_eq]
    positivity
  obtain ⟨full, room⟩ := (Nat.log2_eq_iff shifted).mp long
  have canonical : Canonical (number <<< (52 - number.log2)) (number.log2 - 52) :=
    ⟨by omega, room, .inl full, by omega, by omega⟩
  have value : ((number <<< (52 - number.log2) : ℕ) * 2 ^ (number.log2 - 52 : ℤ) : ℚ) = number := by
    rw [Nat.shiftLeft_eq, Nat.cast_mul, Nat.cast_pow, Nat.cast_ofNat, mul_assoc, ← zpow_natCast,
      ← zpow_add₀ two_ne_zero, Nat.cast_sub bits, Nat.cast_ofNat, sub_add_sub_cancel, sub_self, zpow_zero, mul_one]
  refine ⟨_, _, canonical, full, value, ?_⟩
  have nearest : Nearest (number * 2 ^ (0 : ℤ)) (number <<< (52 - number.log2)) (number.log2 - 52) := by
    rw [zpow_zero, mul_one, ← value]
    exact nearest_self
  have read : number.toUInt64.toNat = number := by
    rw [Nat.toUInt64_eq, UInt64.toNat_ofNat']
    omega
  have order : compare (number : ℤ) 0 = .gt := Int.compare_eq_gt.mpr (by omega)
  change Float.ofModel (.pack (UnpackedFloat.normalize Format.binary64 number.toUInt64.toNat 0 .positive)) = _
  rw [read, UnpackedFloat.normalize, order]
  simp only
  rw [Int.toNat_natCast, round_eq canonical positive.ne' nearest]
  rfl

end Arithmetic

section PowersOfTen

/-- A power of ten up to `10 ^ 22` fits into a mantissa; the table has the reals for these. -/
theorem parts_powerOfTen : ∀ power : Fin 23,
    Float.exactlyRepresentablePowersOfTen[power].isFinite = true ∧
    parts Float.exactlyRepresentablePowersOfTen[power] =
      .finite false (10 ^ power.val * 2 ^ 52 / 2 ^ (10 ^ power.val).log2) ((10 ^ power.val).log2 - 52) ∧
    2 ^ (10 ^ power.val).log2 ∣ 10 ^ power.val * 2 ^ 52 := by
  decide +kernel

theorem exists_canonical_powerOfTen (power : Fin 23) :
    ∃ whole exponent, ∃ canonical : Canonical whole exponent,
      (whole * 2 ^ exponent : ℚ) = 10 ^ power.val ∧
        Float.exactlyRepresentablePowersOfTen[power] = canonical.real := by
  obtain ⟨finite, parts, divides⟩ := parts_powerOfTen power
  have value : ((10 ^ power.val * 2 ^ 52 / 2 ^ (10 ^ power.val).log2 : ℕ) *
      2 ^ ((10 ^ power.val).log2 - 52 : ℤ) : ℚ) = 10 ^ power.val := by
    rw [Nat.cast_div divides (by positivity), zpow_sub₀ two_ne_zero, zpow_natCast]
    push_cast
    field_simp
  rcases parts_eq_finite finite with ⟨negative, zero, -⟩ | ⟨negative, whole, exponent, canonical, same, packed⟩
  · rw [zero] at parts
    injection parts with _ empty _
    rw [← empty, Nat.cast_zero, zero_mul] at value
    exact absurd value.symm (by positivity)
  · rw [same] at parts
    injection parts with positive mantissa scale
    subst positive mantissa scale
    exact ⟨_, _, canonical, value, packed⟩

end PowersOfTen

section Decimals

variable {whole mantissa : ℕ} {exponent power : ℤ} {x : ℚ}

theorem Canonical.bounds (canonical : Canonical whole exponent) (nearest : Nearest x whole exponent) :
    2 ^ (-1075 : ℤ) ≤ x ∧ x < 2 ^ (1024 : ℤ) := by
  obtain ⟨positive, small, -, low, high⟩ := canonical
  obtain ⟨⟨above, below, -⟩, -⟩ := nearest
  constructor
  · have least : (1 : ℚ) ≤ whole := by exact_mod_cast positive
    calc (2 : ℚ) ^ (-1075 : ℤ) ≤ 2 ^ (exponent - 1) := zpow_le_zpow_right₀ one_le_two (by omega)
      _ = 1 / 2 * 2 ^ exponent := by rw [zpow_sub_one₀ two_ne_zero]; ring
      _ ≤ x := (le_div_iff₀ (by positivity)).mp (by linarith)
  · have room : (whole : ℚ) + 1 ≤ 2 ^ 53 := by exact_mod_cast small
    calc x < 2 ^ (53 + exponent) := by
          rw [show (53 : ℤ) = (53 : ℕ) from rfl, lt_zpow_add_iff]
          linarith
      _ ≤ 2 ^ (1024 : ℤ) := zpow_le_zpow_right₀ one_le_two (by omega)

theorem ne_zero_of_nearest (canonical : Canonical whole exponent)
    (nearest : Nearest (mantissa * 10 ^ power) whole exponent) : mantissa ≠ 0 := by
  rintro rfl
  have low := (canonical.bounds nearest).left
  rw [Nat.cast_zero, zero_mul] at low
  exact absurd low (not_le.mpr (by positivity))

theorem two_zpow_le_ten_zpow (nonneg : 0 ≤ power) : (2 : ℚ) ^ power ≤ 10 ^ power :=
  zpow_le_zpow_left₀ nonneg (by norm_num) (by norm_num)

theorem ten_zpow_le_two_zpow (nonpos : power ≤ 0) : (10 : ℚ) ^ power ≤ 2 ^ power := by
  obtain ⟨count, rfl⟩ : ∃ count : ℤ, power = -count := ⟨-power, by ring⟩
  rw [zpow_neg, zpow_neg]
  exact inv_anti₀ (by positivity) (two_zpow_le_ten_zpow (by omega))

/-- A small mantissa and a small power of ten are reals, so that one operation on them is exact enough. -/
theorem ofScientific_eq_of_lt (canonical : Canonical whole exponent)
    (nearest : Nearest (mantissa * 10 ^ power) whole exponent) (small : mantissa < 2 ^ 53)
    (close : power.natAbs ≤ 22) :
    Float.ofScientific mantissa (decide (power < 0)) power.natAbs = canonical.real := by
  have positive := ne_zero_of_nearest canonical nearest
  obtain ⟨_, _, left, long, leftValue, leftReal⟩ := exists_canonical_of_lt (Nat.pos_of_ne_zero positive) small
  obtain ⟨_, _, right, rightValue, rightReal⟩ := exists_canonical_powerOfTen ⟨power.natAbs, by omega⟩
  rw [Float.ofScientific, dif_pos ⟨small, close⟩]
  simp only [Fin.getElem_fin] at rightReal
  simp only [leftReal, rightReal, decide_eq_true_eq]
  split
  next negative =>
    refine left.real_div right canonical ?_
    have divided : (mantissa * 10 ^ power : ℚ) = mantissa / 10 ^ power.natAbs := by
      rw [show power = -(power.natAbs : ℤ) by omega, zpow_neg, zpow_natCast, Int.natAbs_neg, Int.natAbs_natCast]
      rfl
    rw [leftValue, rightValue, ← divided]
    exact nearest
  next positive =>
    refine left.real_mul right canonical long ?_
    have multiplied : (mantissa * 10 ^ power : ℚ) = mantissa * 10 ^ power.natAbs := by
      rw [← zpow_natCast, Int.natAbs_of_nonneg (by omega)]
    rw [leftValue, rightValue, ← multiplied]
    exact nearest

theorem unpacked_ofScientific_eq (canonical : Canonical whole exponent)
    (nearest : Nearest (mantissa * 10 ^ power) whole exponent) :
    UnpackedFloat.ofScientific Format.binary64 mantissa power =
      .finite .positive whole exponent canonical.positive := by
  have positive := ne_zero_of_nearest canonical nearest
  obtain ⟨above, below⟩ := canonical.bounds nearest
  have least : (1 : ℚ) ≤ mantissa := by exact_mod_cast Nat.pos_of_ne_zero positive
  -- arithmetic gives up only on powers that no number with a nearest real has
  have notHigh : ¬ power > 2 ^ Format.binary64.exponentBits := by
    intro high
    have high : (2048 : ℤ) < power := high
    have more : (2 : ℚ) ^ (1024 : ℤ) ≤ mantissa * 10 ^ power := calc
      (2 : ℚ) ^ (1024 : ℤ) ≤ 2 ^ power := zpow_le_zpow_right₀ one_le_two (by omega)
      _ ≤ 10 ^ power := two_zpow_le_ten_zpow (by omega)
      _ ≤ mantissa * 10 ^ power := le_mul_of_one_le_left (by positivity) least
    exact absurd below (not_lt.mpr more)
  have notLow : ¬ power < -(2 ^ Format.binary64.exponentBits + mantissa.log2) := by
    intro low
    have low : power < -(2048 + mantissa.log2) := low
    have room : (mantissa : ℚ) < 2 ^ ((mantissa.log2 + 1 : ℕ) : ℤ) := by
      rw [zpow_natCast]
      exact_mod_cast Nat.lt_log2_self
    have less : (mantissa * 10 ^ power : ℚ) < 2 ^ (-1075 : ℤ) := calc
      (mantissa * 10 ^ power : ℚ) < 2 ^ ((mantissa.log2 + 1 : ℕ) : ℤ) * 10 ^ power := by gcongr
      _ ≤ 2 ^ ((mantissa.log2 + 1 : ℕ) : ℤ) * 2 ^ power := by
        gcongr
        exact ten_zpow_le_two_zpow (by omega)
      _ = 2 ^ ((mantissa.log2 + 1 : ℕ) + power) := (zpow_add₀ two_ne_zero _ _).symm
      _ ≤ 2 ^ (-1075 : ℤ) := zpow_le_zpow_right₀ one_le_two (by push_cast; omega)
    exact absurd above (not_le.mpr less)
  rw [UnpackedFloat.ofScientific, dif_neg positive, if_neg notHigh, if_neg notLow]
  split
  next nonneg =>
    refine mul_eq canonical ?_ ?_ _ _ _ _
    · have value : ((mantissa <<< Format.binary64.mantissaBits : ℕ) * 2 ^ (-(Format.binary64.mantissaBits : ℤ)) *
          ((10 ^ power.toNat : ℕ) * 2 ^ (0 : ℤ)) : ℚ) = mantissa * 10 ^ power := by
        have whole : (10 : ℚ) ^ power = 10 ^ power.toNat := by
          rw [← zpow_natCast, Int.toNat_of_nonneg nonneg]
        rw [whole, Nat.shiftLeft_eq, zpow_neg, zpow_natCast]
        push_cast
        field_simp
      rw [value]
      exact nearest
    · rw [Nat.shiftLeft_eq]
      change 2 ^ 52 ≤ mantissa * 2 ^ 53
      omega
  next negative =>
    refine div_eq canonical ?_ _ _ _ _
    have value : (mantissa * 2 ^ (0 : ℤ) / ((10 ^ (-power).toNat : ℕ) * 2 ^ (0 : ℤ)) : ℚ) =
        mantissa * 10 ^ power := by
      have whole : (10 : ℚ) ^ power = (10 ^ (-power).toNat)⁻¹ := by
        rw [← zpow_natCast, Int.toNat_of_nonneg (by omega), zpow_neg, inv_inv]
      rw [whole]
      push_cast
      field_simp
    rw [value]
    exact nearest

theorem ofScientific_eq (canonical : Canonical whole exponent)
    (nearest : Nearest (mantissa * 10 ^ power) whole exponent) :
    Float.ofScientific mantissa (decide (power < 0)) power.natAbs = canonical.real := by
  by_cases short : mantissa < 2 ^ 53 ∧ power.natAbs ≤ 22
  · exact ofScientific_eq_of_lt canonical nearest short.left short.right
  · have signed : (if decide (power < 0) = true then Int.negOfNat power.natAbs else Int.ofNat power.natAbs) =
        power := by
      simp only [decide_eq_true_eq, Int.negOfNat_eq, Int.ofNat_eq_natCast]
      omega
    rw [Float.ofScientific, dif_neg short]
    simp only [signed]
    exact congrArg (fun unpacked => Float.ofModel (.pack unpacked))
      (unpacked_ofScientific_eq canonical nearest)

theorem two_pow_le_ten_pow : (2 : ℚ) ^ 1089 ≤ 10 ^ 330 := calc
  (2 : ℚ) ^ 1089 = (2 ^ 33) ^ 33 := pow_mul 2 33 33
  _ ≤ (10 ^ 10) ^ 33 := by gcongr; norm_num
  _ = 10 ^ 330 := (pow_mul 10 10 33).symm

theorem lt_ten_pow_length (number : ℕ) : number < 10 ^ (Nat.toDigits 10 number).length :=
  (Nat.length_toDigits_le_iff (by decide) (List.length_pos_of_ne_nil Nat.toDigits_ne_nil)).mp le_rfl

theorem ten_pow_length_le {number : ℕ} (positive : number ≠ 0) :
    10 ^ ((Nat.toDigits 10 number).length - 1) ≤ number := by
  by_contra less
  have some : 0 < (Nat.toDigits 10 number).length := List.length_pos_of_ne_nil Nat.toDigits_ne_nil
  rcases Nat.eq_zero_or_pos ((Nat.toDigits 10 number).length - 1) with single | several
  · rw [single] at less
    omega
  · have := (Nat.length_toDigits_le_iff (by decide) several).mpr (not_le.mp less)
    omega

/-- A decimal is read as the real that is nearest to it. -/
theorem nearestReal_eq (canonical : Canonical whole exponent)
    (nearest : Nearest (mantissa * 10 ^ power) whole exponent) :
    nearestReal mantissa power = canonical.real := by
  have positive := ne_zero_of_nearest canonical nearest
  obtain ⟨above, below⟩ := canonical.bounds nearest
  have some : 0 < (Nat.toDigits 10 mantissa).length := List.length_pos_of_ne_nil Nat.toDigits_ne_nil
  have notLow : ¬ power + (Nat.toDigits 10 mantissa).length < -330 := by
    intro low
    have room : (mantissa : ℚ) < 10 ^ ((Nat.toDigits 10 mantissa).length : ℤ) := by
      rw [zpow_natCast]
      exact_mod_cast lt_ten_pow_length mantissa
    have less : (mantissa * 10 ^ power : ℚ) < 2 ^ (-1075 : ℤ) := calc
      (mantissa * 10 ^ power : ℚ) < 10 ^ ((Nat.toDigits 10 mantissa).length : ℤ) * 10 ^ power := by gcongr
      _ = 10 ^ ((Nat.toDigits 10 mantissa).length + power) := (zpow_add₀ (by norm_num) _ _).symm
      _ ≤ 10 ^ (-330 : ℤ) := zpow_le_zpow_right₀ (by norm_num) (by omega)
      _ ≤ 2 ^ (-1089 : ℤ) := inv_anti₀ (by positivity) two_pow_le_ten_pow
      _ ≤ 2 ^ (-1075 : ℤ) := zpow_le_zpow_right₀ one_le_two (by norm_num)
    exact absurd above (not_le.mpr less)
  have notHigh : ¬ 330 < power + (Nat.toDigits 10 mantissa).length := by
    intro high
    have full : (10 : ℚ) ^ ((Nat.toDigits 10 mantissa).length - 1 : ℤ) ≤ mantissa := by
      rw [← Nat.cast_pred some, zpow_natCast]
      exact_mod_cast ten_pow_length_le positive
    have more : (2 : ℚ) ^ (1024 : ℤ) ≤ mantissa * 10 ^ power := calc
      (2 : ℚ) ^ (1024 : ℤ) ≤ 2 ^ (1089 : ℤ) := zpow_le_zpow_right₀ one_le_two (by norm_num)
      _ ≤ 10 ^ (330 : ℤ) := two_pow_le_ten_pow
      _ ≤ 10 ^ ((Nat.toDigits 10 mantissa).length - 1 + power) := zpow_le_zpow_right₀ (by norm_num) (by omega)
      _ = 10 ^ ((Nat.toDigits 10 mantissa).length - 1 : ℤ) * 10 ^ power := zpow_add₀ (by norm_num) _ _
      _ ≤ mantissa * 10 ^ power := by gcongr
    exact absurd below (not_lt.mpr more)
  rw [nearestReal]
  simp only [if_neg (not_or.mpr ⟨positive, notLow⟩), if_neg notHigh]
  exact ofScientific_eq canonical nearest

end Decimals

end TypedTree.Decimal
