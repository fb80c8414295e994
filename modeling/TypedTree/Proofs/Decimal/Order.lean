import TypedTree.Proofs.Decimal.Scientific
/-! The numbers that reals stand for. Reals compare as their numbers do, and a whole number that is made a real
keeps its side of every other real. -/

namespace TypedTree.Decimal

open Float.Model (UnpackedFloat)
open Float.Model.UnpackedFloat hiding mul div compare

section Numbers

variable {real : Float} {sign : Sign} {mantissa : ℕ} {exponent : ℤ}

/-- The number that a real stands for, if it is neither infinite nor undefined. -/
def number (real : Float) : ℚ :=
  match real.toModel.unpack with
  | .notANumber | .infinity _ | .zero _ => 0
  | .finite .positive mantissa exponent _ => mantissa * 2 ^ exponent
  | .finite .negative mantissa exponent _ => -(mantissa * 2 ^ exponent)

theorem unpack_pack_zero (sign : Sign) : (Float.Model.pack (.zero sign)).unpack = .zero sign := by
  cases sign <;> rfl

theorem unpack_of_isFinite (finite : real.isFinite = true) :
    (∃ sign, real.toModel.unpack = .zero sign) ∨
      ∃ sign mantissa exponent, ∃ canonical : Canonical mantissa exponent,
        real.toModel.unpack = .finite sign mantissa exponent canonical.positive := by
  rcases parts_eq_finite finite with ⟨_, -, rfl⟩ | ⟨_, _, _, canonical, -, rfl⟩
  · exact .inl ⟨_, unpack_pack_zero _⟩
  · exact .inr ⟨_, _, _, canonical, unpack_pack canonical⟩

theorem unpack_neg (finite : real.isFinite = true) : (-real).toModel.unpack = real.toModel.unpack.neg := by
  change (Float.Model.pack real.toModel.unpack.neg).unpack = _
  rcases unpack_of_isFinite finite with ⟨sign, shape⟩ | ⟨sign, _, _, canonical, shape⟩
  · rw [shape]
    exact unpack_pack_zero (-sign)
  · rw [shape]
    exact unpack_pack canonical

theorem isFinite_neg (finite : real.isFinite = true) : (-real).isFinite = true := by
  change (-real).toModel.unpack.isFinite = true
  rw [unpack_neg finite]
  rcases unpack_of_isFinite finite with ⟨_, shape⟩ | ⟨_, _, _, _, shape⟩ <;> rw [shape] <;> rfl

theorem number_neg (finite : real.isFinite = true) : number (-real) = -number real := by
  rw [number, number, unpack_neg finite]
  rcases unpack_of_isFinite finite with ⟨_, shape⟩ | ⟨sign, _, _, _, shape⟩
  · rw [shape]
    exact neg_zero.symm
  · rw [shape]
    cases sign with
    | negative => exact (neg_neg _).symm
    | positive => rfl

theorem number_cases (finite : real.isFinite = true) :
    number real = 0 ∨ ∃ mantissa exponent, Canonical mantissa exponent ∧
      (number real = mantissa * 2 ^ exponent ∨ number real = -(mantissa * 2 ^ exponent)) := by
  rcases unpack_of_isFinite finite with ⟨_, shape⟩ | ⟨sign, mantissa, exponent, canonical, shape⟩
  · left
    rw [number, shape]
  · right
    refine ⟨mantissa, exponent, canonical, ?_⟩
    rw [number, shape]
    cases sign with
    | negative => exact .inr rfl
    | positive => exact .inl rfl

theorem Canonical.number_real (canonical : Canonical mantissa exponent) :
    number canonical.real = mantissa * 2 ^ exponent := by
  have shape : canonical.real.toModel.unpack = _ := unpack_pack canonical
  rw [number, shape]

theorem Canonical.isFinite_real (canonical : Canonical mantissa exponent) : canonical.real.isFinite = true := by
  have shape : canonical.real.toModel.unpack = _ := unpack_pack canonical
  change canonical.real.toModel.unpack.isFinite = true
  rw [shape]
  rfl

end Numbers

section Gaps

variable {mantissa other whole : ℕ} {exponent scale : ℤ} {x : ℚ}

theorem Canonical.pos (canonical : Canonical mantissa exponent) : (0 : ℚ) < mantissa * 2 ^ exponent := by
  have positive : (0 : ℚ) < mantissa := by exact_mod_cast canonical.positive
  positivity

/-- A real on a smaller scale stays below all mantissas that fill their bits, at a distance of half a unit. -/
theorem Canonical.le_of_lt (canonical : Canonical mantissa exponent) (finer : exponent < scale) :
    (mantissa * 2 ^ exponent : ℚ) ≤ (2 ^ 52 - 1 / 2) * 2 ^ scale := by
  have small : (mantissa : ℚ) + 1 ≤ 2 ^ 53 := by exact_mod_cast canonical.small
  have half : (2 : ℚ) ^ (scale - 1) = 1 / 2 * 2 ^ scale := by
    rw [zpow_sub_one₀ two_ne_zero]
    ring
  calc (mantissa * 2 ^ exponent : ℚ) ≤ mantissa * 2 ^ (scale - 1) := by
        gcongr
        · exact one_le_two
        · omega
    _ ≤ (2 ^ 53 - 1) * 2 ^ (scale - 1) := by
        gcongr
        linarith
    _ = (2 ^ 52 - 1 / 2) * 2 ^ scale := by
        rw [half]
        ring

theorem Canonical.lt_of_lt (left : Canonical mantissa exponent) (right : Canonical other scale)
    (finer : exponent < scale) : (mantissa * 2 ^ exponent : ℚ) < other * 2 ^ scale := by
  have full : (2 : ℚ) ^ 52 ≤ other := by
    have := left.low
    exact_mod_cast right.full.resolve_right (by omega)
  calc (mantissa * 2 ^ exponent : ℚ) ≤ (2 ^ 52 - 1 / 2) * 2 ^ scale := left.le_of_lt finer
    _ < other * 2 ^ scale := by
        gcongr
        linarith

theorem exists_units (mantissa : ℕ) (coarser : exponent ≤ scale) :
    ∃ units : ℕ, (mantissa * 2 ^ scale : ℚ) = units * 2 ^ exponent := by
  obtain ⟨count, rfl⟩ : ∃ count : ℕ, scale = exponent + count := ⟨(scale - exponent).toNat, by omega⟩
  refine ⟨mantissa * 2 ^ count, ?_⟩
  rw [zpow_add₀ two_ne_zero, zpow_natCast]
  push_cast
  ring

theorem Nearest.lt_of_lt (nearest : Nearest x whole exponent) (canonical : Canonical whole exponent)
    (right : Canonical mantissa scale) (less : (whole * 2 ^ exponent : ℚ) < mantissa * 2 ^ scale) :
    x < mantissa * 2 ^ scale := by
  have coarser : exponent ≤ scale := by
    by_contra finer
    exact absurd (right.lt_of_lt canonical (not_le.mp finer)) less.not_gt
  obtain ⟨units, same⟩ := exists_units mantissa coarser
  rw [same] at less ⊢
  have next : (whole : ℚ) + 1 ≤ units := by
    exact_mod_cast lt_of_mul_lt_mul_right less (by positivity)
  have high := nearest.rounds.high
  rw [← div_lt_iff₀ (by positivity)]
  linarith

/-- Rounding down stops at the next real. Below a power of two that one is on a smaller scale. -/
theorem Nearest.lt_of_gt (nearest : Nearest x whole exponent) (canonical : Canonical whole exponent)
    (left : Canonical mantissa scale) (less : (mantissa * 2 ^ scale : ℚ) < whole * 2 ^ exponent) :
    mantissa * 2 ^ scale < x := by
  have low := nearest.rounds.low
  rcases le_or_gt exponent scale with coarser | finer
  · obtain ⟨units, same⟩ := exists_units mantissa coarser
    rw [same] at less ⊢
    have next : (units : ℚ) + 1 ≤ whole := by
      exact_mod_cast lt_of_mul_lt_mul_right less (by positivity)
    rw [← lt_div_iff₀ (by positivity)]
    linarith
  · have least : exponent ≠ -1074 := by
      have := left.low
      omega
    have full : 2 ^ 52 ≤ whole := canonical.full.resolve_right least
    have above : (2 : ℚ) ^ 52 - 1 / 2 < x / 2 ^ exponent := by
      rcases full.eq_or_lt with border | inside
      · have := nearest.border border.symm least
        linarith
      · have : (2 : ℚ) ^ 52 + 1 ≤ whole := by exact_mod_cast inside
        linarith
    exact (left.le_of_lt finer).trans_lt ((lt_div_iff₀ (by positivity)).mp above)

end Gaps

section Order

variable {left right : Float} {mantissa other : ℕ} {exponent scale : ℤ}

theorem Canonical.compare_eq (left : Canonical mantissa exponent) (right : Canonical other scale) :
    (compare exponent scale).then (compare mantissa other) =
      compare (mantissa * 2 ^ exponent : ℚ) (other * 2 ^ scale) := by
  rcases lt_trichotomy exponent scale with finer | rfl | coarser
  · rw [compare_lt_iff_lt.mpr finer, compare_lt_iff_lt.mpr (left.lt_of_lt right finer)]
    rfl
  · have unit : (0 : ℚ) < 2 ^ exponent := by positivity
    rw [compare_eq_iff_eq.mpr rfl, Ordering.eq_then, ← cmp_eq_compare, ← cmp_eq_compare, cmp_mul_pos_right unit,
      Nat.strictMono_cast.cmp_map_eq]
  · rw [compare_gt_iff_gt.mpr coarser, compare_gt_iff_gt.mpr (right.lt_of_lt left coarser)]
    rfl

theorem compare_neg_neg (x y : ℚ) : compare (-x) (-y) = (compare x y).swap := by
  rcases lt_trichotomy x y with less | rfl | more
  · rw [compare_lt_iff_lt.mpr less, compare_gt_iff_gt.mpr (neg_lt_neg less)]
    rfl
  · rw [compare_eq_iff_eq.mpr rfl, compare_eq_iff_eq.mpr rfl]
    rfl
  · rw [compare_gt_iff_gt.mpr more, compare_lt_iff_lt.mpr (neg_lt_neg more)]
    rfl

/-- Finite reals compare as the numbers that they stand for. -/
theorem compare_unpack (leftFinite : left.isFinite = true) (rightFinite : right.isFinite = true) :
    left.toModel.unpack.compare right.toModel.unpack = some (compare (number left) (number right)) := by
  rw [number, number]
  rcases unpack_of_isFinite leftFinite with ⟨_, shape⟩ | ⟨sign, _, _, canonical, shape⟩ <;>
    rcases unpack_of_isFinite rightFinite with ⟨_, shape'⟩ | ⟨sign', _, _, canonical', shape'⟩ <;>
    rw [shape, shape']
  · exact congrArg some (compare_eq_iff_eq.mpr rfl).symm
  · cases sign' with
    | negative => exact congrArg some (compare_gt_iff_gt.mpr (neg_neg_of_pos canonical'.pos)).symm
    | positive => exact congrArg some (compare_lt_iff_lt.mpr canonical'.pos).symm
  · cases sign with
    | negative => exact congrArg some (compare_lt_iff_lt.mpr (neg_neg_of_pos canonical.pos)).symm
    | positive => exact congrArg some (compare_gt_iff_gt.mpr canonical.pos).symm
  · have magnitudes := canonical.compare_eq canonical'
    cases sign with
    | negative =>
      cases sign' with
      | negative => exact congrArg some ((congrArg Ordering.swap magnitudes).trans (compare_neg_neg _ _).symm)
      | positive =>
        have below := (neg_neg_of_pos canonical.pos).trans canonical'.pos
        exact congrArg some (compare_lt_iff_lt.mpr below).symm
    | positive =>
      cases sign' with
      | negative =>
        have above := (neg_neg_of_pos canonical'.pos).trans canonical.pos
        exact congrArg some (compare_gt_iff_gt.mpr above).symm
      | positive => exact congrArg some magnitudes

end Order

end TypedTree.Decimal
