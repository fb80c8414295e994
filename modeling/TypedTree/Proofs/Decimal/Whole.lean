import TypedTree.Proofs.Decimal.Order
/-! Whole numbers as reals. A large one is rounded, but never past another real, so that a comparison can only
miss that the two sides differ. -/

namespace TypedTree.Decimal

section Rounding

variable {x : ℚ} {exponent : ℤ}

theorem exists_roundsTo (nonneg : 0 ≤ x) : ∃ whole : ℕ, RoundsTo x whole := by
  have low : (⌊x⌋₊ : ℚ) ≤ x := Nat.floor_le nonneg
  have high : x < ⌊x⌋₊ + 1 := Nat.lt_floor_add_one x
  rcases lt_trichotomy x (⌊x⌋₊ + 1 / 2) with below | middle | above
  · exact ⟨⌊x⌋₊, by linarith, below.le, fun _ => ⟨by linarith, below⟩⟩
  · rcases Nat.mod_two_eq_zero_or_one ⌊x⌋₊ with even | odd
    · exact ⟨⌊x⌋₊, by linarith, middle.le, fun odd => by omega⟩
    · refine ⟨⌊x⌋₊ + 1, ?_, ?_, fun other => by omega⟩ <;> push_cast <;> linarith
  · refine ⟨⌊x⌋₊ + 1, ?_, ?_, fun _ => ⟨?_, ?_⟩⟩ <;> push_cast <;> linarith

theorem exists_nearest (low : 2 ^ 52 ≤ x / 2 ^ exponent) (high : x / 2 ^ exponent < 2 ^ 53)
    (fine : -1074 ≤ exponent) (room : exponent ≤ 970) :
    ∃ whole scale, Canonical whole scale ∧ Nearest x whole scale := by
  obtain ⟨whole, rounds⟩ := exists_roundsTo (x := x / 2 ^ exponent) (by linarith)
  have above : (2 : ℚ) ^ 52 < whole + 1 := by
    have := rounds.high
    linarith
  have below : (whole : ℚ) < 2 ^ 53 + 1 := by
    have := rounds.low
    linarith
  norm_cast at above below
  rcases Nat.lt_succ_iff_lt_or_eq.mp below with inside | rfl
  · refine ⟨whole, exponent, ⟨by omega, inside, .inl (by omega), fine, by omega⟩, rounds, fun _ _ => ?_⟩
    linarith
  · have halved : x / 2 ^ (exponent + 1) = x / 2 ^ exponent / 2 := by
      rw [zpow_add_one₀ two_ne_zero, div_div]
    have near := rounds.low
    push_cast at near
    refine ⟨2 ^ 52, exponent + 1, ⟨by omega, by omega, .inl le_rfl, by omega, by omega⟩, ⟨?_, ?_, ?_⟩, ?_⟩
    · rw [halved]
      push_cast
      linarith
    · rw [halved]
      push_cast
      linarith
    · exact fun odd => absurd odd (by decide)
    · intro _ _
      rw [halved]
      linarith

/-- A natural number is made the real that is nearest to it. -/
theorem exists_canonical_ofNat {whole : ℕ} (positive : 0 < whole) (room : whole < 2 ^ 64) :
    ∃ mantissa exponent, ∃ canonical : Canonical mantissa exponent,
      Nearest whole mantissa exponent ∧ Float.ofNat whole = canonical.real := by
  have bits : whole.log2 < 64 := (Nat.log2_lt positive.ne').mpr room
  have unit : (0 : ℚ) < 2 ^ (whole.log2 - 52 : ℤ) := by positivity
  have scaled : ∀ count : ℕ, (2 : ℚ) ^ count * 2 ^ (whole.log2 - 52 : ℤ) = 2 ^ (count + whole.log2 - 52 : ℤ) := by
    intro count
    rw [add_sub_assoc, zpow_add₀ two_ne_zero, zpow_natCast]
  have low : (2 : ℚ) ^ 52 ≤ whole / 2 ^ (whole.log2 - 52 : ℤ) := by
    have full : (2 : ℚ) ^ whole.log2 ≤ whole := by exact_mod_cast Nat.log2_self_le positive.ne'
    rw [le_div_iff₀ unit, scaled, Nat.cast_ofNat, add_sub_cancel_left, zpow_natCast]
    exact full
  have high : (whole / 2 ^ (whole.log2 - 52 : ℤ) : ℚ) < 2 ^ 53 := by
    have less : (whole : ℚ) < 2 ^ (whole.log2 + 1) := by exact_mod_cast Nat.lt_log2_self
    have next : ((53 : ℕ) + whole.log2 - 52 : ℤ) = (whole.log2 + 1 : ℕ) := by
      push_cast
      ring
    rw [div_lt_iff₀ unit, scaled, next, zpow_natCast]
    exact less
  obtain ⟨mantissa, exponent, canonical, nearest⟩ := exists_nearest low high (by omega) (by omega)
  refine ⟨mantissa, exponent, canonical, nearest, ?_⟩
  have decimal : Nearest (whole * 10 ^ (0 : ℤ)) mantissa exponent := by
    rw [zpow_zero, mul_one]
    exact nearest
  exact ofScientific_eq canonical decimal

end Rounding

section Sides

variable {real : Float} {whole : ℕ}

theorem isFinite_ofNat (room : whole < 2 ^ 64) : (Float.ofNat whole).isFinite = true := by
  rcases whole.eq_zero_or_pos with rfl | positive
  · rfl
  · obtain ⟨_, _, canonical, -, same⟩ := exists_canonical_ofNat positive room
    rw [same]
    exact canonical.isFinite_real

theorem lt_number_of_ofNat (room : whole < 2 ^ 64) (finite : real.isFinite = true)
    (less : number (Float.ofNat whole) < number real) : whole < number real := by
  rcases whole.eq_zero_or_pos with rfl | positive
  · exact_mod_cast less
  · obtain ⟨_, _, canonical, nearest, same⟩ := exists_canonical_ofNat positive room
    rw [same, canonical.number_real] at less
    have above := canonical.pos.trans less
    rcases number_cases finite with zero | ⟨_, _, other, value | value⟩
    · rw [zero] at above
      exact absurd above (lt_irrefl 0)
    · rw [value] at less ⊢
      exact nearest.lt_of_lt canonical other less
    · rw [value] at above
      exact absurd above (neg_neg_of_pos other.pos).not_gt

theorem number_lt_of_ofNat (room : whole < 2 ^ 64) (finite : real.isFinite = true)
    (less : number real < number (Float.ofNat whole)) : number real < whole := by
  rcases whole.eq_zero_or_pos with rfl | positive
  · exact_mod_cast less
  · obtain ⟨_, _, canonical, nearest, same⟩ := exists_canonical_ofNat positive room
    rw [same, canonical.number_real] at less
    have above : (0 : ℚ) < whole := by exact_mod_cast positive
    rcases number_cases finite with zero | ⟨_, _, other, value | value⟩
    · rw [zero]
      exact above
    · rw [value] at less ⊢
      exact nearest.lt_of_gt canonical other less
    · rw [value]
      exact (neg_neg_of_pos other.pos).trans above

end Sides

section Integers

variable {real : Float} {whole : ℤ}

theorem isFinite_ofInt (room : whole.natAbs < 2 ^ 64) : (Float.ofInt whole).isFinite = true := by
  cases whole with
  | ofNat count => exact isFinite_ofNat room
  | negSucc count => exact isFinite_neg (isFinite_ofNat room)

theorem lt_number_of_ofInt (room : whole.natAbs < 2 ^ 64) (finite : real.isFinite = true)
    (less : number (Float.ofInt whole) < number real) : whole < number real := by
  cases whole with
  | ofNat count => exact lt_number_of_ofNat room finite less
  | negSucc count =>
    have negated : number (Float.ofInt (.negSucc count)) = -number (Float.ofNat (count + 1)) :=
      number_neg (isFinite_ofNat room)
    rw [negated, neg_lt, ← number_neg finite] at less
    have side := number_lt_of_ofNat room (isFinite_neg finite) less
    rw [number_neg finite] at side
    rw [Int.cast_negSucc]
    exact neg_lt.mp side

theorem number_lt_of_ofInt (room : whole.natAbs < 2 ^ 64) (finite : real.isFinite = true)
    (less : number real < number (Float.ofInt whole)) : number real < whole := by
  cases whole with
  | ofNat count => exact number_lt_of_ofNat room finite less
  | negSucc count =>
    have negated : number (Float.ofInt (.negSucc count)) = -number (Float.ofNat (count + 1)) :=
      number_neg (isFinite_ofNat room)
    rw [negated, lt_neg, ← number_neg finite] at less
    have side := lt_number_of_ofNat room (isFinite_neg finite) less
    rw [number_neg finite] at side
    rw [Int.cast_negSucc]
    exact lt_neg.mp side

theorem number_ofInt_of_eq (room : whole.natAbs < 2 ^ 64) (finite : real.isFinite = true)
    (same : number real = whole) : number (Float.ofInt whole) = whole := by
  rw [← same]
  rcases lt_trichotomy (number (Float.ofInt whole)) (number real) with less | equal | more
  · exact absurd (lt_number_of_ofInt room finite less) same.le.not_gt
  · exact equal
  · exact absurd (number_lt_of_ofInt room finite more) same.ge.not_gt

theorem exists_number_eq {count : ℕ} (small : count ≤ 2 ^ 53) :
    ∃ real : Float, real.isFinite = true ∧ number real = count := by
  rcases count.eq_zero_or_pos with rfl | positive
  · exact ⟨0, rfl, rfl⟩
  · rcases small.lt_or_eq with less | rfl
    · obtain ⟨_, _, canonical, -, value, -⟩ := exists_canonical_of_lt positive less
      exact ⟨canonical.real, canonical.isFinite_real, canonical.number_real.trans value⟩
    · have canonical : Canonical (2 ^ 52) 1 := ⟨by decide, by decide, .inl le_rfl, by decide, by decide⟩
      refine ⟨canonical.real, canonical.isFinite_real, canonical.number_real.trans ?_⟩
      norm_num

theorem number_ofInt_of_le (small : whole.natAbs ≤ 2 ^ 53) : number (Float.ofInt whole) = whole := by
  obtain ⟨real, finite, value⟩ := exists_number_eq small
  have room : whole.natAbs < 2 ^ 64 := by omega
  rcases Int.natAbs_eq whole with positive | negative
  · refine number_ofInt_of_eq room finite ?_
    rw [value, ← Int.cast_natCast, ← positive]
  · refine number_ofInt_of_eq room (isFinite_neg finite) ?_
    rw [number_neg finite, value, ← Int.cast_natCast, ← Int.cast_neg, ← negative]

end Integers

end TypedTree.Decimal
