import TypedTree.Decimal.Shortest
import TypedTree.Proofs.Decimal.Nearest
/-! The bits of a 64-bit real. Its sign, mantissa and exponent can be read off them, and are all there is
to a real that is neither infinite nor undefined. -/

namespace TypedTree.Decimal

open Float.Model (Format UnpackedFloat)
open Float.Model.UnpackedFloat hiding mul div

section Fields

def signOf (bits : BitVec 64) : Sign := .ofBitVec (@unpackSign Format.binary64 bits)

def exponentOf (bits : BitVec 64) : BitVec 11 := @unpackExponent Format.binary64 bits

def mantissaOf (bits : BitVec 64) : BitVec 52 := @unpackMantissa Format.binary64 bits

variable {exponent : BitVec 11} {mantissa : BitVec 52} {sign : Sign} {bits : BitVec 64}

theorem toBitVec_ofBitVec (bit : BitVec 1) : (Sign.ofBitVec bit).toBitVec = bit := by
  revert bit
  decide

theorem ofBitVec_toBitVec (sign : Sign) : Sign.ofBitVec sign.toBitVec = sign := by
  cases sign <;> rfl

theorem signOf_packComponents : signOf (packComponents Format.binary64 sign exponent mantissa) = sign := by
  have bit : @unpackSign Format.binary64 (packComponents Format.binary64 sign exponent mantissa) =
      sign.toBitVec := by
    apply BitVec.eq_of_getLsbD_eq
    intro i below
    simp only [unpackSign, packComponents, BitVec.getLsbD_cast, BitVec.getLsbD_extractLsb,
      BitVec.getLsbD_append]
    obtain rfl : i = 0 := by omega
    simp
  rw [signOf, bit, ofBitVec_toBitVec]

theorem packComponents_fields :
    packComponents Format.binary64 (signOf bits) (exponentOf bits) (mantissaOf bits) = bits := by
  apply BitVec.eq_of_getLsbD_eq
  intro i below
  simp only [packComponents, signOf, exponentOf, mantissaOf, toBitVec_ofBitVec, unpackSign, unpackExponent,
    unpackMantissa, BitVec.getLsbD_cast, BitVec.getLsbD_extractLsb, BitVec.getLsbD_append]
  split
  next inside => simp [show i < 52 - 1 + 1 by omega]
  next =>
    split
    next inside =>
      have : i - 52 < 11 := inside
      simp [show i - 52 < 52 + 11 - 1 - 52 + 1 by omega, show 52 + (i - 52) = i by omega]
    next =>
      have : 63 ≤ i := by omega
      have : i < 64 := below
      simp [show i - 52 - 11 < 52 + 11 - (52 + 11) + 1 by omega, show 52 + 11 + (i - 52 - 11) = i by omega]

theorem toNat_mantissaOf : (mantissaOf bits).toNat = bits.toNat % 2 ^ 52 := by
  simp [mantissaOf, unpackMantissa, BitVec.extractLsb_toNat]

theorem toNat_exponentOf : (exponentOf bits).toNat = (bits.toNat >>> 52) % 2048 := by
  simp [exponentOf, unpackExponent, BitVec.extractLsb_toNat]

theorem signOf_eq : signOf bits = if (bits.toNat >>> 63) % 2 = 1 then .negative else .positive := by
  have bit : (@unpackSign Format.binary64 bits).toNat = (bits.toNat >>> 63) % 2 := by
    simp [unpackSign, BitVec.extractLsb_toNat]
  rw [signOf, Sign.ofBitVec, ← bit]
  have : (@unpackSign Format.binary64 bits) = 0#1 ↔ (@unpackSign Format.binary64 bits).toNat ≠ 1 := by
    generalize @unpackSign Format.binary64 bits = bit
    revert bit
    decide
  simp only [this]
  split_ifs <;> simp_all

theorem toNat_leading (mantissa : BitVec 52) : (1#1 ++ mantissa).toNat = 2 ^ 52 + mantissa.toNat := by
  rw [BitVec.toNat_append, ← Nat.shiftLeft_add_eq_or_of_lt mantissa.isLt]
  rfl

theorem unpack_of_normal (some : exponentOf bits ≠ 0#11) (finite : exponentOf bits ≠ -1#11) :
    UnpackedFloat.unpack Format.binary64 bits =
      .finite (signOf bits) (2 ^ 52 + (mantissaOf bits).toNat) ((exponentOf bits).toNat - 1075)
        (by positivity) := by
  have leading := toNat_leading (mantissaOf bits)
  rw [mantissaOf] at leading
  rw [exponentOf] at some finite
  simp only [UnpackedFloat.unpack, if_neg some, if_neg finite, leading]
  rfl

theorem unpack_of_subnormal (none : exponentOf bits = 0#11) (some : 0 < (mantissaOf bits).toNat) :
    UnpackedFloat.unpack Format.binary64 bits =
      .finite (signOf bits) (mantissaOf bits).toNat (-1074) some := by
  have nonzero : mantissaOf bits ≠ 0#52 := by
    intro zero
    rw [zero] at some
    exact absurd some (by decide)
  rw [exponentOf] at none
  rw [mantissaOf] at nonzero
  simp only [UnpackedFloat.unpack, none]
  rw [if_neg (by decide), if_pos trivial, dif_neg nonzero]
  rfl

theorem unpack_of_zero (none : exponentOf bits = 0#11) (zero : mantissaOf bits = 0#52) :
    UnpackedFloat.unpack Format.binary64 bits = .zero (signOf bits) := by
  rw [exponentOf] at none
  rw [mantissaOf] at zero
  simp only [UnpackedFloat.unpack, none]
  rw [if_neg (by decide), if_pos trivial, dif_pos zero]
  rfl

end Fields

section Packing

variable {mantissa : ℕ} {exponent : ℤ} {sign : Sign} {bits : BitVec 64}

theorem pack_of_normal (full : 2 ^ 52 ≤ mantissa) (small : mantissa < 2 ^ 53) (high : exponent ≤ 971)
    (positive : 0 < mantissa) :
    UnpackedFloat.pack Format.binary64 (.finite sign mantissa exponent positive) =
      packComponents Format.binary64 sign (.ofNat 11 (exponent + 1075).toNat) (.ofNat 52 mantissa) := by
  have bits : mantissa.log2 = 52 := (Nat.log2_eq_iff positive.ne').mpr ⟨full, small⟩
  have biased : exponent + (Format.binary64.exponentBias : ℤ) + (52 : ℕ) = exponent + 1075 := by
    change exponent + 1023 + 52 = exponent + 1075
    ring
  have room : ¬ 2 ^ 11 ≤ (exponent + 1075).toNat + 1 := by omega
  simp only [UnpackedFloat.pack, biased, if_neg room, bits]
  rfl

theorem pack_of_subnormal (small : mantissa < 2 ^ 52) (positive : 0 < mantissa) :
    UnpackedFloat.pack Format.binary64 (.finite sign mantissa (-1074) positive) =
      packComponents Format.binary64 sign 0#11 (.ofNat 52 mantissa) := by
  have bits : mantissa.log2 < 52 := (Nat.log2_lt positive.ne').mpr small
  have long : ¬ mantissa.log2 + 1 = Format.binary64.mantissaBits := by
    change ¬ mantissa.log2 + 1 = 53
    omega
  simp only [UnpackedFloat.pack, if_neg long]
  exact if_neg (by decide)

theorem toNat_ofNat_full (full : 2 ^ 52 ≤ mantissa) (small : mantissa < 2 ^ 53) :
    2 ^ 52 + (BitVec.ofNat 52 mantissa).toNat = mantissa := by
  rw [BitVec.toNat_ofNat]
  omega

theorem exponentOf_packComponents (field : BitVec 11) (row : BitVec 52) :
    exponentOf (packComponents Format.binary64 sign field row) = field := unpackExponent_packComponents

theorem mantissaOf_packComponents (field : BitVec 11) (row : BitVec 52) :
    mantissaOf (packComponents Format.binary64 sign field row) = row := unpackMantissa_packComponents

theorem unpack_pack (canonical : Canonical mantissa exponent) :
    (Float.Model.pack (.finite sign mantissa exponent canonical.positive)).unpack =
      .finite sign mantissa exponent canonical.positive := by
  obtain ⟨positive, small, full, low, high⟩ := canonical
  change UnpackedFloat.unpack Format.binary64 (UnpackedFloat.pack Format.binary64 _) = _
  by_cases long : 2 ^ 52 ≤ mantissa
  · have leading := toNat_ofNat_full long small
    have biased : (BitVec.ofNat 11 (exponent + 1075).toNat).toNat = (exponent + 1075).toNat := by
      rw [BitVec.toNat_ofNat]
      omega
    have differs : ∀ other : BitVec 11, other.toNat = 0 ∨ other.toNat = 2047 →
        BitVec.ofNat 11 (exponent + 1075).toNat ≠ other := by
      rintro other reserved rfl
      omega
    rw [pack_of_normal long small high, unpack_of_normal]
    · simp only [signOf_packComponents, exponentOf_packComponents, mantissaOf_packComponents, leading, biased]
      congr 1
      omega
    · rw [exponentOf_packComponents]
      exact differs _ (.inl rfl)
    · rw [exponentOf_packComponents]
      exact differs _ (.inr rfl)
  · obtain rfl : exponent = -1074 := full.resolve_left long
    have written : (BitVec.ofNat 52 mantissa).toNat = mantissa := by
      rw [BitVec.toNat_ofNat]
      omega
    rw [pack_of_subnormal (by omega) positive, unpack_of_subnormal (exponentOf_packComponents _ _)]
    · simp only [signOf_packComponents, mantissaOf_packComponents, written]
    · rw [mantissaOf_packComponents, written]
      exact positive

theorem pack_unpack_bits (finite : exponentOf bits ≠ -1#11) :
    UnpackedFloat.pack Format.binary64 (UnpackedFloat.unpack Format.binary64 bits) = bits := by
  conv_rhs => rw [← @packComponents_fields bits]
  by_cases none : exponentOf bits = 0#11
  · by_cases zero : mantissaOf bits = 0#52
    · rw [unpack_of_zero none zero, none, zero]
      rfl
    · have some : 0 < (mantissaOf bits).toNat := Nat.pos_of_ne_zero fun empty => zero (BitVec.eq_of_toNat_eq empty)
      rw [unpack_of_subnormal none some, pack_of_subnormal (mantissaOf bits).isLt some, none]
      simp
  · have row := (mantissaOf bits).isLt
    have field := (exponentOf bits).isLt
    have last : (exponentOf bits).toNat ≠ 2047 := fun same => finite (BitVec.eq_of_toNat_eq same)
    have biased : ((exponentOf bits).toNat - 1075 + 1075 : ℤ).toNat = (exponentOf bits).toNat := by omega
    have behind : BitVec.ofNat 52 (2 ^ 52 + (mantissaOf bits).toNat) = mantissaOf bits := by
      apply BitVec.eq_of_toNat_eq
      rw [BitVec.toNat_ofNat]
      omega
    rw [unpack_of_normal none finite, pack_of_normal (by omega) (by omega) (by omega), biased, behind]
    simp

end Packing

section Parts

variable {real : Float} {negative : Bool} {mantissa : ℕ} {exponent : ℤ}

def signFor (negative : Bool) : Sign := if negative then .negative else .positive

theorem exponentOf_of_isFinite {real : Float.Model} (finite : real.isFinite = true) :
    exponentOf real.toBits.toBitVec ≠ -1#11 := by
  intro reserved
  rw [exponentOf] at reserved
  simp only [Float.Model.isFinite, Float.Model.unpack, UnpackedFloat.unpack, reserved] at finite
  rw [if_pos trivial] at finite
  split at finite <;> cases finite

/-- A real that is neither infinite nor undefined is made up of its sign, its mantissa and its exponent. -/
theorem pack_unpack {real : Float.Model} (finite : real.isFinite = true) :
    Float.Model.pack real.unpack = real := by
  have kept := pack_unpack_bits (exponentOf_of_isFinite finite)
  simp only [Float.Model.pack, Float.Model.unpack, kept]

theorem partsOfBits_eq (bits : BitVec 64) :
    ∃ negative, signFor negative = signOf bits ∧ partsOfBits bits.toNat =
      if (exponentOf bits).toNat = 2047 then
        if (mantissaOf bits).toNat = 0 then .infinite negative else .nan
      else if (exponentOf bits).toNat = 0 then .finite negative (mantissaOf bits).toNat (-1074)
      else .finite negative (leadingBit + (mantissaOf bits).toNat) ((exponentOf bits).toNat - 1075) := by
  refine ⟨(bits.toNat >>> 63) % 2 == 1, ?_, ?_⟩
  · rw [signOf_eq, signFor]
    simp only [beq_iff_eq]
  · rw [partsOfBits, toNat_exponentOf, toNat_mantissaOf]
    rfl

theorem parts_eq_finite (finite : real.isFinite = true) :
    (∃ negative, parts real = .finite negative 0 (-1074) ∧ real = ⟨.pack (.zero (signFor negative))⟩) ∨
      ∃ negative mantissa exponent, ∃ canonical : Canonical mantissa exponent,
        parts real = .finite negative mantissa exponent ∧
          real = ⟨.pack (.finite (signFor negative) mantissa exponent canonical.positive)⟩ := by
  obtain ⟨model⟩ := real
  obtain ⟨negative, sign, read⟩ := partsOfBits_eq model.toBits.toBitVec
  have reserved := exponentOf_of_isFinite finite
  have whole : Float.Model.pack model.unpack = model := pack_unpack finite
  have row := (mantissaOf model.toBits.toBitVec).isLt
  have field := (exponentOf model.toBits.toBitVec).isLt
  have last : (exponentOf model.toBits.toBitVec).toNat ≠ 2047 := fun same =>
    reserved (BitVec.eq_of_toNat_eq same)
  rw [if_neg last] at read
  by_cases none : exponentOf model.toBits.toBitVec = 0#11
  · rw [none, if_pos (show (0#11).toNat = 0 from rfl)] at read
    by_cases zero : mantissaOf model.toBits.toBitVec = 0#52
    · left
      refine ⟨negative, ?_, ?_⟩
      · rw [zero] at read
        exact read
      · refine congrArg Float.ofModel (whole.symm.trans ?_)
        rw [Float.Model.unpack, unpack_of_zero none zero, sign]
    · have some : 0 < (mantissaOf model.toBits.toBitVec).toNat :=
        Nat.pos_of_ne_zero fun empty => zero (BitVec.eq_of_toNat_eq empty)
      right
      refine ⟨negative, _, _, ⟨some, by omega, .inr rfl, by omega, by omega⟩, read, ?_⟩
      refine congrArg Float.ofModel (whole.symm.trans ?_)
      rw [Float.Model.unpack, unpack_of_subnormal none some, sign]
  · have some : (exponentOf model.toBits.toBitVec).toNat ≠ 0 := fun empty => none (BitVec.eq_of_toNat_eq empty)
    rw [if_neg some] at read
    right
    refine ⟨negative, _, _, ⟨Nat.add_pos_left (by decide) _, ?_, .inl ?_, by omega, by omega⟩, read, ?_⟩
    · rw [leadingBit]
      omega
    · rw [leadingBit]
      omega
    · refine congrArg Float.ofModel (whole.symm.trans ?_)
      rw [Float.Model.unpack, unpack_of_normal none reserved, sign]
      rfl

end Parts

end TypedTree.Decimal
