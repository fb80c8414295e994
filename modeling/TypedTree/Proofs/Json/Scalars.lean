import TypedTree.Error
import TypedTree.Json.Reader
import TypedTree.Json.Writer
import Mathlib.Data.List.Basic
import Mathlib.Data.List.TakeDrop
import Mathlib.Data.List.TakeWhile
/-! Numbers and quoted texts read back. Whatever follows the closing quote is left alone, and so is what
follows a number, as long as it cannot be taken for more of the number. -/

namespace TypedTree.Json

section Rows

variable {row rest : List Char}

structure IsRow (row : List Char) : Prop where
  some : row ≠ []
  digits : ∀ char ∈ row, isDigit char = true

def EndsRow (rest : List Char) : Prop := ∀ char ∈ rest.head?, isDigit char = false

theorem EndsRow.nil : EndsRow [] := fun _ member => (nomatch member)

theorem EndsRow.cons {char : Char} (other : isDigit char = false) : EndsRow (char :: rest) :=
  fun _ member => Option.some.inj member ▸ other

theorem readDigits_append (digits : IsRow row) (ends : EndsRow rest) :
    readDigits (row ++ rest) = .ok (row, rest) := by
  have stops : rest.takeWhile isDigit = [] ∧ rest.dropWhile isDigit = rest := by
    cases rest with
    | nil => exact ⟨rfl, rfl⟩
    | cons char rest =>
      have other : ¬ isDigit char = true := by simp [ends char rfl]
      exact ⟨List.takeWhile_cons_of_neg other, List.dropWhile_cons_of_neg other⟩
  rw [readDigits, List.span_eq_takeWhile_dropWhile, List.takeWhile_append_of_pos digits.digits,
    List.dropWhile_append_of_pos digits.digits, stops.left, stops.right, List.append_nil]
  cases row with
  | nil => exact absurd rfl digits.some
  | cons digit row => rfl

theorem readWhole_append (digits : IsRow row) (plain : row.length ≠ 1 → row.head? ≠ some '0')
    (ends : EndsRow rest) : readWhole (row ++ rest) = .ok (row, rest) :=
  bind_eq_ok_iff.mpr ⟨_, readDigits_append digits ends, if_neg fun ⟨long, zero⟩ => plain long zero⟩

end Rows

section Numbers

def EndsNumber (rest : List Char) : Prop :=
  ∀ char ∈ rest.head?, isDigit char = false ∧ char ≠ '.' ∧ char ≠ 'e' ∧ char ≠ 'E'

theorem EndsNumber.nil : EndsNumber [] := fun _ member => (nomatch member)

variable {rest chars remaining digits : List Char}

/-- A step that reads part of a number, read with something behind the number. -/
def Extends {α : Type} (step : List Char → Except Fault (α × List Char)) (rest : List Char) : Prop :=
  ∀ chars value remaining, step chars = .ok (value, remaining) →
    step (chars ++ rest) = .ok (value, remaining ++ rest)

theorem span_append (ends : EndsNumber rest) (chars : List Char) :
    (chars ++ rest).span isDigit = ((chars.span isDigit).1, (chars.span isDigit).2 ++ rest) := by
  simp only [List.span_eq_takeWhile_dropWhile]
  induction chars with
  | nil =>
    cases rest with
    | nil => rfl
    | cons char rest =>
      obtain ⟨other, _⟩ := ends char rfl
      simp [other]
  | cons char chars ih =>
    obtain ⟨taken, dropped⟩ := Prod.mk.inj ih
    cases digit : isDigit char with
    | true => simp [digit, taken, dropped]
    | false => simp [digit]

theorem readDigits_extends (ends : EndsNumber rest) : Extends readDigits rest := by
  intro chars digits remaining read
  rw [readDigits] at read ⊢
  rw [span_append ends]
  rcases taken : chars.span isDigit with ⟨row, behind⟩
  rw [taken] at read
  cases row with
  | nil => cases behind <;> cases read
  | cons digit row =>
    cases read
    rfl

theorem readWhole_extends (ends : EndsNumber rest) : Extends readWhole rest := by
  intro chars digits remaining read
  obtain ⟨⟨row, behind⟩, first, last⟩ := bind_eq_ok_iff.mp read
  refine bind_eq_ok_iff.mpr ⟨(row, behind ++ rest), readDigits_extends ends _ _ _ first, ?_⟩
  dsimp only at last ⊢
  split at last
  · cases last
  next plain =>
    rw [if_neg plain]
    cases last
    rfl

theorem bind_readDigits_extends {α : Type} (ends : EndsNumber rest) (keep : List Char → α) :
    Extends (fun chars => do let (digits, rest) ← readDigits chars; return (keep digits, rest)) rest := by
  intro chars value remaining read
  obtain ⟨⟨row, behind⟩, first, last⟩ := bind_eq_ok_iff.mp read
  cases last
  exact bind_eq_ok_iff.mpr ⟨(row, remaining ++ rest), readDigits_extends ends _ _ _ first, rfl⟩

theorem readFraction_of_ne {chars : List Char} (other : ∀ behind, chars ≠ '.' :: behind) :
    readFraction chars = .ok (none, chars) := by
  unfold readFraction
  split
  · exact absurd rfl (other _)
  · rfl

theorem readFraction_extends (ends : EndsNumber rest) : Extends readFraction rest := by
  intro chars digits remaining read
  by_cases point : ∃ behind, chars = '.' :: behind
  · obtain ⟨behind, rfl⟩ := point
    exact bind_readDigits_extends ends some behind digits remaining read
  · rw [readFraction_of_ne fun behind same => point ⟨behind, same⟩] at read
    cases read
    apply readFraction_of_ne
    intro behind same
    cases chars with
    | nil => exact (ends '.' (by rw [List.nil_append] at same; rw [same]; rfl)).2.1 rfl
    | cons char chars =>
      cases same
      exact point ⟨chars, rfl⟩

theorem readExponent_of_ne {chars : List Char} (other : ∀ char ∈ chars.head?, char ≠ 'e' ∧ char ≠ 'E') :
    readExponent chars = .ok (none, chars) := by
  cases chars with
  | nil => rfl
  | cons mark chars => exact if_neg (not_or.mpr (other mark rfl))

theorem readExponent_extends (ends : EndsNumber rest) : Extends readExponent rest := by
  intro chars power remaining read
  cases chars with
  | nil =>
    cases read
    exact readExponent_of_ne fun char member => (ends char member).2.2
  | cons mark chars =>
    simp only [readExponent, List.cons_append] at read ⊢
    split at read
    next marked =>
      rw [if_pos marked]
      split at read
      · exact bind_readDigits_extends ends (fun digits => some (-(digitsValue digits : Int))) _ _ _ read
      · exact bind_readDigits_extends ends (fun digits => some (digitsValue digits : Int)) _ _ _ read
      next minus plus =>
        have unsigned := bind_readDigits_extends ends (fun digits => some (digitsValue digits : Int)) _ _ _ read
        cases chars with
        | nil => cases read
        | cons char chars =>
          rw [List.cons_append] at unsigned ⊢
          split
          next same =>
            cases same
            exact absurd rfl (minus _)
          next same =>
            cases same
            exact absurd rfl (plus _)
          next => exact unsigned
    next plain =>
      rw [if_neg plain]
      cases read
      rfl

def readUnsigned (negative : Bool) (chars : List Char) : Except Fault (Draft × List Char) := do
  let (whole, chars) ← readWhole chars
  let (fraction, chars) ← readFraction chars
  let (exponent, chars) ← readExponent chars
  return (numberDraft negative whole fraction exponent, chars)

theorem readNumber_negative (chars : List Char) : readNumber ('-' :: chars) = readUnsigned true chars := rfl

theorem readNumber_of_ne {chars : List Char} (other : ∀ behind, chars ≠ '-' :: behind) :
    readNumber chars = readUnsigned false chars := by
  rw [readNumber]
  · rfl
  · exact other

theorem readUnsigned_extends (ends : EndsNumber rest) (negative : Bool) :
    Extends (readUnsigned negative) rest := by
  intro chars draft remaining read
  obtain ⟨⟨whole, behindWhole⟩, first, read⟩ := bind_eq_ok_iff.mp read
  obtain ⟨⟨fraction, behindFraction⟩, second, read⟩ := bind_eq_ok_iff.mp read
  obtain ⟨⟨power, behindExponent⟩, third, read⟩ := bind_eq_ok_iff.mp read
  cases read
  refine bind_eq_ok_iff.mpr ⟨_, readWhole_extends ends _ _ _ first, ?_⟩
  refine bind_eq_ok_iff.mpr ⟨_, readFraction_extends ends _ _ _ second, ?_⟩
  exact bind_eq_ok_iff.mpr ⟨_, readExponent_extends ends _ _ _ third, rfl⟩

/-- A number reads the same whatever follows it. -/
theorem readNumber_extends (ends : EndsNumber rest) : Extends readNumber rest := by
  intro chars draft remaining read
  by_cases signed : ∃ behind, chars = '-' :: behind
  · obtain ⟨behind, rfl⟩ := signed
    exact readUnsigned_extends ends true behind draft remaining read
  · have unsigned : ∀ behind, chars ≠ '-' :: behind := fun behind same => signed ⟨behind, same⟩
    have behind : ∀ behind, chars ++ rest ≠ '-' :: behind := by
      intro behind same
      cases chars with
      | nil => cases read
      | cons char chars =>
        cases same
        exact unsigned chars rfl
    rw [readNumber_of_ne unsigned] at read
    rw [readNumber_of_ne behind]
    exact readUnsigned_extends ends false chars draft remaining read

theorem readNumber_head {draft : Draft} (read : readNumber chars = .ok (draft, remaining)) :
    ∃ char behind, chars = char :: behind ∧ (char = '-' ∨ isDigit char = true) := by
  by_cases signed : ∃ behind, chars = '-' :: behind
  · obtain ⟨behind, rfl⟩ := signed
    exact ⟨'-', behind, rfl, .inl rfl⟩
  · rw [readNumber_of_ne fun behind same => signed ⟨behind, same⟩] at read
    obtain ⟨_, whole, _⟩ := bind_eq_ok_iff.mp read
    obtain ⟨_, digits, _⟩ := bind_eq_ok_iff.mp whole
    rw [readDigits, List.span_eq_takeWhile_dropWhile] at digits
    cases chars with
    | nil => cases digits
    | cons char behind =>
      refine ⟨char, behind, rfl, .inr ?_⟩
      by_contra other
      rw [List.takeWhile_cons_of_neg other, List.dropWhile_cons_of_neg other] at digits
      cases digits

end Numbers

section Integers

theorem isDigit_of_mem_toDigits {number : Nat} {char : Char} (member : char ∈ Nat.toDigits 10 number) :
    isDigit char = true := by
  have digit := Nat.isDigit_of_mem_toDigits (by decide) (by decide) member
  rw [isDigit]
  simpa [Char.isDigit, Char.le_def] using digit

theorem digitsValue_toDigits (number : Nat) : digitsValue (Nat.toDigits 10 number) = number := by
  have each : ∀ char ∈ Nat.toDigits 10 number, (hexDigit? char).getD 0 = char.toNat - '0'.toNat := by
    intro char member
    rw [hexDigit?, if_pos (isDigit_of_mem_toDigits member)]
    rfl
  have same : ∀ digits : List Char, (∀ char ∈ digits, (hexDigit? char).getD 0 = char.toNat - '0'.toNat) →
      ∀ start, digits.foldl (fun value digit => 10 * value + (hexDigit? digit).getD 0) start =
        Nat.ofDigitChars 10 digits start := by
    intro digits each
    induction digits with
    | nil => exact fun start => (Nat.ofDigitChars_nil).symm
    | cons digit digits ih =>
      obtain ⟨first, others⟩ := List.forall_mem_cons.mp each
      intro start
      rw [List.foldl_cons, first, ih others, Nat.ofDigitChars_cons]
  rw [digitsValue, valueInBase, same _ each, Nat.ofDigitChars_ten_toDigits]

theorem toDigits_head {number : Nat} (positive : 0 < number) :
    (Nat.toDigits 10 number).head? ≠ some '0' := by
  induction number using Nat.base_induction 10 (by decide) with
  | single digit small =>
    rw [Nat.toDigits_of_lt_base small, List.head?_cons, Ne, Option.some.injEq, Nat.digitChar_eq_zero]
    omega
  | digit front digit small frontPositive ih =>
    rw [← Nat.toDigits_append_toDigits (by decide) frontPositive small,
      List.head?_append_of_ne_nil _ Nat.toDigits_ne_nil]
    exact ih frontPositive

theorem isRow_toDigits (number : Nat) : IsRow (Nat.toDigits 10 number) :=
  ⟨Nat.toDigits_ne_nil, fun _ => isDigit_of_mem_toDigits⟩

theorem readDigits_toDigits (number : Nat) :
    readDigits (Nat.toDigits 10 number) = .ok (Nat.toDigits 10 number, []) := by
  have read := readDigits_append (isRow_toDigits number) EndsRow.nil
  rwa [List.append_nil] at read

theorem readWhole_toDigits (number : Nat) :
    readWhole (Nat.toDigits 10 number) = .ok (Nat.toDigits 10 number, []) := by
  refine bind_eq_ok_iff.mpr ⟨_, readDigits_toDigits number, if_neg ?_⟩
  rintro ⟨long, zero⟩
  rcases Nat.eq_zero_or_pos number with rfl | positive
  · exact long rfl
  · exact toDigits_head positive zero

theorem readUnsigned_toDigits (negative : Bool) (number : Nat) :
    readUnsigned negative (Nat.toDigits 10 number) =
      .ok (numberDraft negative (Nat.toDigits 10 number) none none, []) :=
  bind_eq_ok_iff.mpr ⟨_, readWhole_toDigits number, rfl⟩

theorem numberDraft_ofNat {number : Nat} (fits : number < UInt64.size) :
    numberDraft false (Nat.toDigits 10 number) none none = .int number := by
  simp only [numberDraft, digitsValue_toDigits, Option.isNone_none, Bool.and_self, if_true, fits,
    Bool.false_eq_true, if_false]

theorem numberDraft_negSucc {number : Nat} (fits : fitsInt64 (.negSucc number) = true) :
    numberDraft true (Nat.toDigits 10 (number + 1)) none none = .int (.negSucc number) := by
  have same : Int.negSucc number = -((number + 1 : Nat) : Int) := rfl
  rw [same] at fits ⊢
  simp only [numberDraft, digitsValue_toDigits, Option.isNone_none, Bool.and_self, if_true,
    Nat.zero_lt_succ, decide_true, fits]

theorem readNumber_int {value : Int} (fits : fitsInt64 value = true) :
    readNumber (toString value).toList = .ok (.int value, []) := by
  cases value with
  | ofNat number =>
    have written : (toString (Int.ofNat number)).toList = Nat.toDigits 10 number := Nat.toList_repr
    have unsigned : ∀ behind, Nat.toDigits 10 number ≠ '-' :: behind := by
      intro behind same
      have digit : isDigit '-' = true := isDigit_of_mem_toDigits (same ▸ List.mem_cons_self)
      exact absurd digit (by decide)
    have small : number < UInt64.size := by
      simp only [fitsInt64, Bool.and_eq_true, decide_eq_true_eq] at fits
      have high : (number : Int) ≤ 2 ^ 63 - 1 := fits.2
      simp only [UInt64.size]
      omega
    rw [written, readNumber_of_ne unsigned, readUnsigned_toDigits, numberDraft_ofNat small]
    rfl
  | negSucc number =>
    have written : (toString (Int.negSucc number)).toList = '-' :: Nat.toDigits 10 (number + 1) := by
      change ("-" ++ (number + 1).repr).toList = _
      rw [String.toList_append, Nat.toList_repr]
      rfl
    rw [written, readNumber_negative, readUnsigned_toDigits, numberDraft_negSucc fits]

end Integers

section Texts

theorem hexDigit?_digitChar {digit : Nat} (small : digit < 16) : hexDigit? digit.digitChar = some digit := by
  have each : ∀ digit : Fin 16, hexDigit? digit.val.digitChar = some digit.val := by decide
  exact each ⟨digit, small⟩

def plainReading (reversed : List Char) : TextReading := { reversed }

theorem push_plainReading (reversed : List Char) (char : Char) :
    (plainReading reversed).push char = plainReading (char :: reversed) := rfl

theorem readQuoted_escapeChar (char : Char) (reversed chars : List Char) :
    readQuoted .plain (plainReading reversed) (escapeChar char ++ chars) =
      readQuoted .plain (plainReading (char :: reversed)) chars := by
  unfold escapeChar
  split
  · rfl
  · rfl
  · rfl
  · rfl
  · rfl
  · rfl
  · rfl
  next quote backslash _ _ _ _ _ =>
    split
    next control =>
      have high : hexDigit? (char.toNat / 16).digitChar = some (char.toNat / 16) :=
        hexDigit?_digitChar (by omega)
      have low : hexDigit? (char.toNat % 16).digitChar = some (char.toNat % 16) :=
        hexDigit?_digitChar (by omega)
      have unit : 16 * (16 * 0 + char.toNat / 16) + char.toNat % 16 = char.toNat := by omega
      change readQuoted (.hex 1 0) (plainReading reversed) (_ :: _ :: chars) = _
      simp only [readQuoted, high, low, unit, TextReading.pushUnit]
      rw [if_neg (by omega), if_neg (by omega), Char.ofNat_toNat, push_plainReading]
    next printed =>
      rw [List.singleton_append, readQuoted]
      simp only [if_neg quote, if_neg backslash, if_neg printed, push_plainReading]

/-- A quoted text reads back, up to its closing quote. -/
theorem readQuoted_escaped (text : List Char) (reversed rest : List Char) :
    readQuoted .plain (plainReading reversed) (text.flatMap escapeChar ++ '"' :: rest) =
      .ok (some (String.ofList (reversed.reverse ++ text)), rest) := by
  induction text generalizing reversed with
  | nil =>
    rw [List.append_nil]
    rfl
  | cons char text ih =>
    rw [List.flatMap_cons, List.append_assoc, readQuoted_escapeChar, ih, List.reverse_cons, List.append_assoc]
    rfl

end Texts

end TypedTree.Json
