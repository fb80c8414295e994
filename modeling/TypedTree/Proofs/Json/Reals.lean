import TypedTree.Proofs.Decimal.Shortest
import TypedTree.Proofs.Json.ReadBack
/-! Reals read back. A finite real is written as the shortest decimal for which it is the nearest real, and a
reader finds the nearest real. -/

namespace TypedTree.Json

open Decimal (Canonical Nearest Digits Layout)

section Rows

variable {row : List Char}

theorem isDigit_of_mem_zeros {char : Char} {count : Nat} (member : char ∈ List.replicate count '0') :
    isDigit char = true := by
  rw [List.eq_of_mem_replicate member]
  rfl

theorem isRow_zeros (count : Nat) : IsRow (List.replicate (count + 1) '0') :=
  ⟨List.cons_ne_nil _ _, fun _ => isDigit_of_mem_zeros⟩

theorem foldl_replicate_zero (count value : Nat) :
    (List.replicate count '0').foldl (fun value digit => 10 * value + (hexDigit? digit).getD 0) value =
      value * 10 ^ count := by
  induction count generalizing value with
  | zero => rw [pow_zero, mul_one]; rfl
  | succ count ih =>
    rw [List.replicate_succ, List.foldl_cons, ih, show (hexDigit? '0').getD 0 = 0 from rfl, pow_succ]
    ring

theorem digitsValue_append_zeros (count : Nat) :
    digitsValue (row ++ List.replicate count '0') = digitsValue row * 10 ^ count := by
  rw [digitsValue, valueInBase, List.foldl_append, foldl_replicate_zero]
  rfl

theorem digitsValue_zeros_append (count : Nat) :
    digitsValue (List.replicate count '0' ++ row) = digitsValue row := by
  rw [digitsValue, valueInBase, List.foldl_append, foldl_replicate_zero, zero_mul]
  rfl

end Rows

section Texts

variable {rest row whole : List Char} {fraction : Option (List Char)} {power : Option Int} {x : ℚ}

def fractionText (fraction : Option (List Char)) : List Char := fraction.elim [] ('.' :: ·)

def exponentText (power : Option Int) : List Char :=
  power.elim [] fun power => 'e' :: (if power < 0 then '-' else '+') :: Nat.toDigits 10 power.natAbs

theorem readFraction_text (digits : ∀ row ∈ fraction, IsRow row) (ends : EndsRow rest)
    (pointless : rest.head? ≠ some '.') : readFraction (fractionText fraction ++ rest) = .ok (fraction, rest) := by
  cases fraction with
  | none =>
    apply readFraction_of_ne
    rintro behind same
    exact pointless (congrArg List.head? same)
  | some row => exact bind_eq_ok_iff.mpr ⟨_, readDigits_append (digits row rfl) ends, rfl⟩

theorem readExponent_text (power : Option Int) : readExponent (exponentText power) = .ok (power, []) := by
  cases power with
  | none => rfl
  | some power =>
    have digits := digitsValue_toDigits power.natAbs
    rw [exponentText, Option.elim_some]
    split
    next negative =>
      refine bind_eq_ok_iff.mpr ⟨_, readDigits_toDigits _, ?_⟩
      simp only [digits, Int.ofNat_natAbs_of_nonpos negative.le, neg_neg]
      rfl
    next nonneg =>
      refine bind_eq_ok_iff.mpr ⟨_, readDigits_toDigits _, ?_⟩
      simp only [digits, Int.natAbs_of_nonneg (not_lt.mp nonneg)]
      rfl

theorem exponentText_head (power : Option Int) :
    EndsRow (exponentText power) ∧ (exponentText power).head? ≠ some '.' := by
  cases power with
  | none => exact ⟨EndsRow.nil, by decide⟩
  | some power => exact ⟨EndsRow.cons rfl, fun same => absurd (Option.some.inj same) (by decide)⟩

theorem readUnsigned_text (digits : IsRow whole) (plain : whole.length ≠ 1 → whole.head? ≠ some '0')
    (behind : ∀ row ∈ fraction, IsRow row) (negative : Bool) :
    readUnsigned negative (whole ++ (fractionText fraction ++ exponentText power)) =
      .ok (numberDraft negative whole fraction power, []) := by
  obtain ⟨ends, pointless⟩ := exponentText_head power
  have first : EndsRow (fractionText fraction ++ exponentText power) := by
    cases fraction with
    | none => exact ends
    | some row => exact EndsRow.cons rfl
  refine bind_eq_ok_iff.mpr ⟨_, readWhole_append digits plain first, ?_⟩
  refine bind_eq_ok_iff.mpr ⟨_, readFraction_text behind ends pointless, ?_⟩
  exact bind_eq_ok_iff.mpr ⟨_, readExponent_text power, rfl⟩

/-- A text that is read as a number with a fraction or an exponent, and that stands for `x`. -/
def Spells (chars : List Char) (x : ℚ) : Prop :=
  ∃ whole fraction power, (∀ negative, readUnsigned negative chars =
      .ok (numberDraft negative whole fraction power, [])) ∧
    (Option.isNone fraction && Option.isNone power) = false ∧
    digitsValue (whole ++ fraction.getD []) * (10 : ℚ) ^ (power.getD 0 - (fraction.getD []).length) = x

theorem spells_zeros_before (digits : IsRow row) (count : Nat) :
    Spells (['0'] ++ (fractionText (some (List.replicate count '0' ++ row)) ++ exponentText none))
      (digitsValue row * 10 ^ (-(count + row.length) : ℤ)) := by
  have behind : IsRow (List.replicate count '0' ++ row) :=
    ⟨List.append_ne_nil_of_right_ne_nil _ digits.some,
      List.forall_mem_append.mpr ⟨fun _ => isDigit_of_mem_zeros, digits.digits⟩⟩
  refine ⟨_, _, _, readUnsigned_text (isRow_zeros 0) (absurd rfl) fun _ same => Option.some.inj same ▸ behind,
    rfl, ?_⟩
  have leading : ['0'] ++ (List.replicate count '0' ++ row) = List.replicate (count + 1) '0' ++ row := rfl
  rw [Option.getD_some, Option.getD_none, leading, digitsValue_zeros_append, List.length_append,
    List.length_replicate, zero_sub, Nat.cast_add]

theorem spells_zeros_behind (digits : IsRow row) (plain : row.head? ≠ some '0') (count : Nat) :
    Spells (row ++ List.replicate count '0' ++ (fractionText (some ['0']) ++ exponentText none))
      (digitsValue row * 10 ^ (count : ℤ)) := by
  have front : IsRow (row ++ List.replicate count '0') :=
    ⟨List.append_ne_nil_of_left_ne_nil digits.some _,
      List.forall_mem_append.mpr ⟨digits.digits, fun _ => isDigit_of_mem_zeros⟩⟩
  refine ⟨_, _, _, readUnsigned_text front ?_ fun _ same => Option.some.inj same ▸ isRow_zeros 0, rfl, ?_⟩
  · rw [List.head?_append_of_ne_nil _ digits.some]
    exact fun _ => plain
  · have last : row ++ List.replicate count '0' ++ ['0'] = row ++ List.replicate (count + 1) '0' := by
      rw [List.append_assoc, List.replicate_succ']
    rw [Option.getD_some, Option.getD_none, last, digitsValue_append_zeros, List.length_singleton]
    push_cast
    rw [zpow_neg_one, zpow_natCast, pow_succ]
    field_simp

theorem spells_split (digits : IsRow row) (plain : row.head? ≠ some '0') {place : Nat} (some : 0 < place)
    (less : place < row.length) :
    Spells (row.take place ++ (fractionText (.some (row.drop place)) ++ exponentText none))
      (digitsValue row * 10 ^ (place - row.length : ℤ)) := by
  have front : IsRow (row.take place) :=
    ⟨List.ne_nil_of_length_pos (by rw [List.length_take]; omega),
      fun _ member => digits.digits _ (List.mem_of_mem_take member)⟩
  have back : IsRow (row.drop place) :=
    ⟨List.ne_nil_of_length_pos (by rw [List.length_drop]; omega),
      fun _ member => digits.digits _ (List.mem_of_mem_drop member)⟩
  refine ⟨_, _, _, readUnsigned_text front ?_ fun _ same => Option.some.inj same ▸ back, rfl, ?_⟩
  · rw [List.head?_take, if_neg some.ne']
    exact fun _ => plain
  · rw [Option.getD_some, Option.getD_none, List.take_append_drop, List.length_drop]
    congr 2
    omega

theorem toList_zeros (count : Nat) : (Decimal.zeros count).toList = List.replicate count '0' :=
  String.toList_ofList

theorem spells_pointed {number : Nat} (positive : 0 < number) (power : Int) :
    Spells (Decimal.pointed Layout.json (Nat.toDigits 10 number) power).toList
      (number * 10 ^ (power - (Nat.toDigits 10 number).length)) := by
  have digits := isRow_toDigits number
  have value := digitsValue_toDigits number
  have plain := toDigits_head positive
  generalize Nat.toDigits 10 number = row at digits value plain
  subst value
  rw [Decimal.pointed]
  split_ifs with small large
  · have text : ("0." ++ Decimal.zeros (-power).toNat ++ String.ofList row).toList =
        ['0'] ++ (fractionText (some (List.replicate (-power).toNat '0' ++ row)) ++ exponentText none) := by
      simp [fractionText, exponentText, toList_zeros]
    have place : power - row.length = -((-power).toNat + row.length) := by omega
    rw [text, place]
    exact spells_zeros_before digits _
  · have text : (String.ofList row ++ Decimal.zeros (power.toNat - row.length) ++ Layout.json.wholeSuffix).toList =
        row ++ List.replicate (power.toNat - row.length) '0' ++
          (fractionText (some ['0']) ++ exponentText none) := by
      simp [fractionText, exponentText, toList_zeros, Layout.json]
    have place : power - row.length = (power.toNat - row.length : Nat) := by omega
    rw [text, place]
    exact spells_zeros_behind digits plain _
  · have text : (String.ofList (row.take power.toNat) ++ "." ++ String.ofList (row.drop power.toNat)).toList =
        row.take power.toNat ++ (fractionText (some (row.drop power.toNat)) ++ exponentText none) := by
      simp [fractionText, exponentText]
    have place : power - row.length = power.toNat - row.length := by omega
    rw [text, place]
    exact spells_split digits plain (by omega) (by omega)

theorem toList_scientific {first : Char} {row : List Char} (power : Int) :
    (Decimal.scientific (first :: row) power).toList =
      [first] ++ (fractionText (if row = [] then none else some row) ++ exponentText (some power)) := by
  have exponent : (if power < 0 then "e-" else "e+").toList = ['e', if power < 0 then '-' else '+'] := by
    split <;> rfl
  cases row <;> simp [Decimal.scientific, exponent, fractionText, exponentText]

theorem spells_scientific {number : Nat} (power : Int) :
    Spells (Decimal.scientific (Nat.toDigits 10 number) power).toList
      (number * 10 ^ (power + 1 - (Nat.toDigits 10 number).length)) := by
  have digits := isRow_toDigits number
  have value := digitsValue_toDigits number
  generalize Nat.toDigits 10 number = row at digits value
  obtain ⟨first, row, rfl⟩ := List.exists_cons_of_ne_nil digits.some
  obtain ⟨digit, others⟩ := List.forall_mem_cons.mp digits.digits
  rw [toList_scientific]
  refine ⟨_, _, _, readUnsigned_text ⟨List.cons_ne_nil _ _, List.forall_mem_singleton.mpr digit⟩ (absurd rfl) ?_,
    Bool.and_false _, ?_⟩
  · intro behind same
    split at same
    · cases same
    next more => exact Option.some.inj same ▸ ⟨more, others⟩
  · have behind : (if row = [] then none else some row).getD [] = row := by
      split
      next empty => exact empty.symm
      next => rfl
    rw [behind, Option.getD_some, List.singleton_append, value, List.length_cons]
    congr 2
    push_cast
    ring

theorem spells_write {decimal : Digits} (positive : 0 < decimal.significand) :
    Spells (Layout.json.write decimal).toList decimal.number := by
  have number : decimal.number = decimal.significand * 10 ^
      (decimal.exponent + (Nat.toDigits 10 decimal.significand).length - 1 + 1 -
        (Nat.toDigits 10 decimal.significand).length) := by
    rw [Digits.number]
    congr 2
    ring
  rw [Layout.write, number]
  split
  · exact spells_pointed positive _
  · exact spells_scientific _

end Texts

section Reals

variable {mantissa : ℕ} {exponent : ℤ} {x : ℚ}

theorem isInf_real (canonical : Canonical mantissa exponent) : canonical.real.isInf = false := by
  change (Float.Model.pack _).unpack.isInf = false
  rw [Decimal.unpack_pack canonical]
  rfl

theorem neg_real (canonical : Canonical mantissa exponent) :
    -canonical.real = ⟨.pack (.finite .negative mantissa exponent canonical.positive)⟩ := by
  change Float.ofModel (.pack (Float.Model.pack _).unpack.neg) = _
  rw [Decimal.unpack_pack canonical]
  rfl

theorem readUnsigned_of_spells {chars : List Char} (canonical : Canonical mantissa exponent)
    (nearest : Nearest x mantissa exponent) (spells : Spells chars x) (negative : Bool) :
    readUnsigned negative chars =
      .ok (.real ⟨.pack (.finite (Decimal.signFor negative) mantissa exponent canonical.positive)⟩, []) := by
  obtain ⟨whole, fraction, power, read, real, value⟩ := spells
  have found := Decimal.nearestReal_eq canonical (value.symm ▸ nearest)
  rw [read]
  simp only [numberDraft, real, found, isInf_real]
  cases negative with
  | false => rfl
  | true => simp [neg_real, Decimal.signFor]

theorem ne_of_readUnsigned {chars : List Char} {result : Draft × List Char}
    (read : readUnsigned false chars = .ok result) (behind : List Char) : chars ≠ '-' :: behind := by
  rintro rfl
  cases read

theorem readNumber_signed {text : String} {draft : Bool → Draft}
    (read : ∀ negative, readUnsigned negative text.toList = .ok (draft negative, [])) (negative : Bool) :
    readNumber ((if negative then "-" else "") ++ text).toList = .ok (draft negative, []) := by
  rw [String.toList_append]
  cases negative with
  | false => exact (readNumber_of_ne (ne_of_readUnsigned (read false))).trans (read false)
  | true => exact read true

/-- Every finite real reads back. -/
theorem realReadsBack_of_isFinite {value : Float} (finite : value.isFinite = true) : RealReadsBack value := by
  rw [RealReadsBack, Decimal.json]
  rcases Decimal.parts_eq_finite finite with
    ⟨negative, parts, real⟩ | ⟨negative, mantissa, exponent, canonical, parts, real⟩
  · rw [parts, real]
    cases negative <;> rfl
  · rw [parts, real]
    simp only [Layout.writeFinite, if_neg canonical.positive.ne']
    exact readNumber_signed (readUnsigned_of_spells canonical (Decimal.nearest_shortest canonical)
      (spells_write (Nat.pos_of_ne_zero (Decimal.shortest_significand_ne_zero canonical)))) negative

end Reals

end TypedTree.Json
