import TypedTree.Proofs.Json.Scalars
/-! A text on indented lines reads back. The reader finds every value of a written text, but follows lists
and objects only down to its limit; a value that stays above the limit comes back whole. -/

namespace TypedTree.Json

mutual

def nesting : Json → Nat
  | null | bool _ | int _ | real _ | text _ => 0
  | list items => nestingItems items + 1
  | object fields => nestingFields fields + 1

def nestingItems : List Json → Nat
  | [] => 0
  | item :: items => max item.nesting (nestingItems items)

def nestingFields : List (String × Json) → Nat
  | [] => 0
  | (_, value) :: fields => max value.nesting (nestingFields fields)

end

mutual

/-- A value inside `depth` lists and objects as a reader finds it. -/
def draftAt (depth : Nat) : Json → Draft
  | null => .null
  | bool value => .bool value
  | int value => .int value
  | real value => .real value
  | text value => .text value
  | list items => enclosed depth (.list (draftItemsAt (depth + 1) items) none)
  | object fields => enclosed depth (.object (draftFieldsAt (depth + 1) fields) none)

def draftItemsAt (depth : Nat) : List Json → List Draft
  | [] => []
  | item :: items => item.draftAt depth :: draftItemsAt depth items

def draftFieldsAt (depth : Nat) : List (String × Json) → List (String × Draft)
  | [] => []
  | (key, value) :: fields => (key, value.draftAt depth) :: draftFieldsAt depth fields

end

mutual

theorem draftAt_eq_draft {depth : Nat} (json : Json) (room : depth + json.nesting ≤ maxDepth) :
    json.draftAt depth = json.draft := by
  match json with
  | null | bool _ | int _ | real _ | text _ => rfl
  | list items =>
    rw [nesting] at room
    rw [draftAt, draft, draftItemsAt_eq_draftItems items (by omega), enclosed, if_pos (by omega)]
  | object fields =>
    rw [nesting] at room
    rw [draftAt, draft, draftFieldsAt_eq_draftFields fields (by omega), enclosed, if_pos (by omega)]

theorem draftItemsAt_eq_draftItems {depth : Nat} (items : List Json)
    (room : depth + nestingItems items ≤ maxDepth) : draftItemsAt depth items = draftItems items := by
  match items with
  | [] => rfl
  | item :: items =>
    rw [nestingItems] at room
    rw [draftItemsAt, draftItems, draftAt_eq_draft item (by omega),
      draftItemsAt_eq_draftItems items (by omega)]

theorem draftFieldsAt_eq_draftFields {depth : Nat} (fields : List (String × Json))
    (room : depth + nestingFields fields ≤ maxDepth) : draftFieldsAt depth fields = draftFields fields := by
  match fields with
  | [] => rfl
  | (key, value) :: fields =>
    rw [nestingFields] at room
    rw [draftFieldsAt, draftFields, draftAt_eq_draft value (by omega),
      draftFieldsAt_eq_draftFields fields (by omega)]

end

def RealReadsBack (value : Float) : Prop :=
  readNumber (Decimal.json value).toList = .ok (.real value, [])

mutual

def NumbersReadBack : Json → Prop
  | null | bool _ | text _ => True
  | int value => fitsInt64 value = true
  | real value => RealReadsBack value
  | list items => itemsNumbersReadBack items
  | object fields => fieldsNumbersReadBack fields

def itemsNumbersReadBack : List Json → Prop
  | [] => True
  | item :: items => item.NumbersReadBack ∧ itemsNumbersReadBack items

def fieldsNumbersReadBack : List (String × Json) → Prop
  | [] => True
  | (_, value) :: fields => value.NumbersReadBack ∧ fieldsNumbersReadBack fields

end

section Lines

def lineStart (depth : Nat) : List Char := '\n' :: List.replicate (2 * depth) ' '

def linesBehind (closing : Char) (depth : Nat) : List String → List Char
  | [] => lineStart depth ++ [closing]
  | line :: lines => ',' :: (lineStart (depth + 1) ++ line.toList ++ linesBehind closing depth lines)

theorem toList_indent (count : Nat) : ("".pushn ' ' count).toList = List.replicate count ' ' := by
  rw [String.pushn_eq_repeat_push]
  induction count with
  | zero => rfl
  | succ count ih => rw [Nat.repeat, String.toList_push, ih, List.replicate_succ']

theorem toList_line (depth : Nat) (line : String) :
    "\n".toList ++ ("".pushn ' ' (2 * depth) ++ "  " ++ line).toList = lineStart (depth + 1) ++ line.toList := by
  have wider : List.replicate (2 * depth) ' ' ++ [' ', ' '] = List.replicate (2 * (depth + 1)) ' ' := by
    rw [show 2 * (depth + 1) = 2 * depth + 2 by omega, List.replicate_add]
    rfl
  simp only [String.toList_append, toList_indent, lineStart]
  rw [← wider]
  rfl

theorem toList_lines (depth : Nat) (line : String) (lines : List String) (closing : Char) :
    "\n".toList ++
      (",\n".intercalate ((line :: lines).map fun line => "".pushn ' ' (2 * depth) ++ "  " ++ line)).toList ++
      lineStart depth ++ [closing] =
      lineStart (depth + 1) ++ line.toList ++ linesBehind closing depth lines := by
  induction lines generalizing line with
  | nil => rw [List.map_singleton, String.intercalate_singleton, toList_line, linesBehind, List.append_assoc]
  | cons next lines ih =>
    rw [List.map_cons, List.map_cons, String.intercalate_cons_cons, String.toList_append, String.toList_append,
      ← List.map_cons, linesBehind, ← ih]
    have comma : ",\n".toList = ',' :: "\n".toList := rfl
    rw [comma]
    simp only [← List.append_assoc, toList_line]
    simp

theorem toList_bracketed_cons (opening closing : Char) (depth : Nat) (line : String) (lines : List String) :
    (bracketed (String.singleton opening) (String.singleton closing) depth (line :: lines)).toList =
      opening :: (lineStart (depth + 1) ++ line.toList ++ linesBehind closing depth lines) := by
  rw [← toList_lines]
  simp only [bracketed, List.isEmpty_cons, Bool.false_eq_true, if_false, String.toList_append, toList_indent,
    String.toList_singleton, lineStart]
  simp

theorem toList_pretty_nil (depth : Nat) :
    (pretty depth (list [])).toList = ['[', ']'] ∧ (pretty depth (object [])).toList = ['\x7b', '\x7d'] := by
  simp only [pretty, prettyItems, prettyFields, bracketed, List.isEmpty_nil, if_true, String.toList_append]
  exact ⟨rfl, rfl⟩

theorem toList_pretty_list (depth : Nat) (item : Json) (items : List Json) :
    (pretty depth (list (item :: items))).toList =
      '[' :: (lineStart (depth + 1) ++ (item.pretty (depth + 1)).toList ++
        linesBehind ']' depth (prettyItems (depth + 1) items)) := by
  rw [pretty, prettyItems, ← toList_bracketed_cons]
  rfl

theorem toList_pretty_object (depth : Nat) (name : String) (value : Json) (fields : List (String × Json)) :
    (pretty depth (object ((name, value) :: fields))).toList =
      '\x7b' :: (lineStart (depth + 1) ++ ((quote name ++ ": ").toList ++ (value.pretty (depth + 1)).toList) ++
        linesBehind '\x7d' depth (prettyFields (depth + 1) fields)) := by
  rw [pretty, prettyFields, ← String.toList_append, ← toList_bracketed_cons]
  rfl

theorem length_lineStart_pos (depth : Nat) : 0 < (lineStart depth).length := Nat.succ_pos _

theorem length_linesBehind_pos (closing : Char) (depth : Nat) (lines : List String) :
    0 < (linesBehind closing depth lines).length := by
  cases lines <;> exact Nat.succ_pos _

variable {chars rest : List Char}

theorem skipSpace_lineStart (depth : Nat) (chars : List Char) :
    skipSpace (lineStart depth ++ chars) = skipSpace chars := by
  have spaces : ∀ count, skipSpace (List.replicate count ' ' ++ chars) = skipSpace chars := by
    intro count
    induction count with
    | zero => rfl
    | succ count ih => exact ih
  exact spaces (2 * depth)

theorem skipSpace_of_head {char : Char} (printed : isSpace char = false) (chars : List Char) :
    skipSpace (char :: chars) = char :: chars :=
  List.dropWhile_cons_of_neg (by simp [printed])

theorem endsNumber_linesBehind (closing : Char) (depth : Nat) (lines : List String) (rest : List Char) :
    EndsNumber (linesBehind closing depth lines ++ rest) := by
  intro char member
  cases lines <;> cases member <;> decide

end Lines

section Values

def itemsBehind (fuel depth : Nat) (item : Draft) (chars : List Char) :
    List Draft × Option Break × Option (List Char) :=
  match skipSpace chars with
  | ',' :: rest =>
    let (items, ending, rest) := readItems fuel depth false rest
    (item :: items, ending, rest)
  | ']' :: rest => ([item], none, some rest)
  | rest => ([item], some (.hard (misplaced rest)), none)

def fieldsBehind (fuel depth : Nat) (name : String) (value : Draft) (chars : List Char) :
    List (String × Draft) × Option Break × Option (List Char) :=
  let (fields, ending, rest) := match skipSpace chars with
    | ',' :: rest => readFields fuel depth false rest
    | '\x7d' :: rest => ([], none, some rest)
    | rest => ([], some (.hard (misplaced rest)), none)
  ((name, value) :: fields, ending, rest)

variable {fuel depth : Nat} {chars rest text : List Char}

def StartsValue (text : List Char) : Prop :=
  ∃ char behind, text = char :: behind ∧ isSpace char = false ∧ char ≠ ']'

theorem isSpace_of_startsNumber {char : Char} (starts : char = '-' ∨ isDigit char = true) :
    isSpace char = false := by
  rw [isSpace]
  simp only [Bool.or_eq_false_iff, decide_eq_false_iff_not]
  refine ⟨⟨⟨?_, ?_⟩, ?_⟩, ?_⟩ <;>
  · rintro rfl
    exact absurd starts (by decide)

theorem exists_fuel (starts : StartsValue text) (room : text.length ≤ fuel) : ∃ less, fuel = less + 1 := by
  obtain ⟨char, behind, rfl, -⟩ := starts
  rw [List.length_cons] at room
  exact ⟨fuel - 1, by omega⟩

theorem readValue_number (fuel depth : Nat) {draft : Draft}
    (read : readNumber chars = .ok (draft, rest)) : readValue (fuel + 1) depth chars = (draft, some rest) := by
  obtain ⟨char, behind, rfl, starts⟩ := readNumber_head read
  rw [readValue, skipSpace_of_head (isSpace_of_startsNumber starts)]
  split
  case h_1 same => cases same
  case h_8 same =>
    cases same
    rw [read, if_pos (by simpa using starts)]
  all_goals
    next same =>
      cases same
      exact absurd starts (by decide)

theorem readItems_item (first : Bool) (indent : Nat) (starts : StartsValue text) {item : Draft}
    (read : readValue fuel depth (text ++ rest) = (item, some rest)) :
    readItems (fuel + 1) depth first (lineStart indent ++ text ++ rest) = itemsBehind fuel depth item rest := by
  obtain ⟨char, behind, rfl, printed, inside⟩ := starts
  rw [List.append_assoc, readItems, skipSpace_lineStart, List.cons_append, skipSpace_of_head printed]
  rw [List.cons_append] at read
  split
  next same =>
    cases same
    exact absurd rfl inside
  next =>
    rw [read]
    rfl

theorem toList_quote (text : String) :
    (quote text).toList = '"' :: (text.toList.flatMap escapeChar ++ ['"']) := by
  simp [quote, String.toList_append]

theorem readQuoted_quote (text : String) (rest : List Char) :
    readQuoted .plain {} (text.toList.flatMap escapeChar ++ '"' :: rest) = .ok (some text, rest) := by
  have read := readQuoted_escaped text.toList [] rest
  rw [List.reverse_nil, List.nil_append, String.ofList_toList] at read
  exact read

theorem readFields_field (first : Bool) (indent : Nat) (name : String) {value : Draft}
    (read : readValue fuel depth (text ++ rest) = (value, some rest)) :
    readFields (fuel + 1) depth first (lineStart indent ++ (quote name ++ ": ").toList ++ text ++ rest) =
      fieldsBehind fuel depth name value rest := by
  have quoted : (quote name ++ ": ").toList ++ text ++ rest =
      '"' :: (name.toList.flatMap escapeChar ++ '"' :: ':' :: ' ' :: (text ++ rest)) := by
    rw [String.toList_append, toList_quote]
    simp
  have spaced : readValue fuel depth (' ' :: (text ++ rest)) = (value, some rest) := by
    rw [← read]
    cases fuel <;> rfl
  have colon : skipSpace (':' :: ' ' :: (text ++ rest)) = ':' :: ' ' :: (text ++ rest) := rfl
  rw [List.append_assoc, List.append_assoc, readFields, skipSpace_lineStart, ← List.append_assoc, quoted,
    skipSpace_of_head (by decide)]
  simp only [readQuoted_quote, colon, spaced]
  rfl

theorem startsValue_number {draft : Draft} (read : readNumber chars = .ok (draft, rest)) :
    StartsValue chars := by
  obtain ⟨char, behind, rfl, starts⟩ := readNumber_head read
  refine ⟨char, behind, rfl, isSpace_of_startsNumber starts, ?_⟩
  rintro rfl
  exact absurd starts (by decide)

theorem startsValue_pretty (indent : Nat) (json : Json) (numbers : json.NumbersReadBack) :
    StartsValue (json.pretty indent).toList := by
  match json with
  | null => exact ⟨'n', "ull".toList, by rw [pretty]; rfl, rfl, by decide⟩
  | bool true => exact ⟨'t', "rue".toList, by rw [pretty]; rfl, rfl, by decide⟩
  | bool false => exact ⟨'f', "alse".toList, by rw [pretty]; rfl, rfl, by decide⟩
  | int value => exact startsValue_number (readNumber_int numbers)
  | real value => exact startsValue_number numbers
  | text value => exact ⟨'"', _, by rw [pretty, toList_quote], rfl, by decide⟩
  | list [] => exact ⟨'[', [']'], (toList_pretty_nil indent).left, rfl, by decide⟩
  | list (item :: items) => exact ⟨'[', _, toList_pretty_list indent item items, rfl, by decide⟩
  | object [] => exact ⟨'\x7b', ['\x7d'], (toList_pretty_nil indent).right, rfl, by decide⟩
  | object ((name, value) :: fields) =>
    exact ⟨'\x7b', _, toList_pretty_object indent name value fields, rfl, by decide⟩

theorem readValue_text (value : String) :
    readValue (fuel + 1) depth ((quote value).toList ++ rest) = (.text value, some rest) := by
  have quoted : (quote value).toList ++ rest = '"' :: (value.toList.flatMap escapeChar ++ '"' :: rest) := by
    rw [toList_quote]
    simp
  rw [quoted, readValue, skipSpace_of_head (by decide)]
  simp only [readQuoted_quote]

theorem readValue_list (chars : List Char) : readValue (fuel + 1) depth ('[' :: chars) =
    (enclosed depth (.list (readItems fuel (depth + 1) true chars).1 (readItems fuel (depth + 1) true chars).2.1),
      (readItems fuel (depth + 1) true chars).2.2) := rfl

theorem readValue_object (chars : List Char) : readValue (fuel + 1) depth ('\x7b' :: chars) =
    (enclosed depth (.object (readFields fuel (depth + 1) true chars).1
      (readFields fuel (depth + 1) true chars).2.1), (readFields fuel (depth + 1) true chars).2.2) := rfl

mutual

/-- A written text is read to its end, whatever follows it. -/
theorem readValue_pretty (json : Json) {fuel : Nat} {rest : List Char}
    (numbers : json.NumbersReadBack) (indent depth : Nat) (ends : EndsNumber rest)
    (room : (json.pretty indent).toList.length ≤ fuel) :
    readValue fuel depth ((json.pretty indent).toList ++ rest) = (json.draftAt depth, some rest) := by
  obtain ⟨fuel, rfl⟩ := exists_fuel (startsValue_pretty indent json numbers) room
  cases json with
  | null =>
    rw [pretty]
    rfl
  | bool value =>
    rw [pretty]
    cases value <;> rfl
  | int value =>
    rw [pretty]
    exact readValue_number fuel depth (readNumber_extends ends _ _ _ (readNumber_int numbers))
  | real value =>
    rw [pretty]
    exact readValue_number fuel depth (readNumber_extends ends _ _ _ numbers)
  | text value =>
    rw [pretty]
    exact readValue_text value
  | list items =>
    cases items with
    | nil =>
      rw [(toList_pretty_nil indent).left] at room ⊢
      obtain ⟨fuel, rfl⟩ : ∃ less, fuel = less + 1 := ⟨fuel - 1, by simp at room; omega⟩
      rfl
    | cons item items =>
      have start := length_lineStart_pos (indent + 1)
      have behind := length_linesBehind_pos ']' indent (prettyItems (indent + 1) items)
      rw [toList_pretty_list] at room ⊢
      simp only [List.length_cons, List.length_append] at room
      obtain ⟨fuel, rfl⟩ : ∃ less, fuel = less + 1 := ⟨fuel - 1, by omega⟩
      have first : readValue fuel (depth + 1) _ = _ :=
        readValue_pretty item numbers.left (indent + 1) (depth + 1)
          (endsNumber_linesBehind ']' indent (prettyItems (indent + 1) items) rest) (by omega)
      have read := readItems_item true (indent + 1) (startsValue_pretty (indent + 1) item numbers.left) first
      simp only [List.cons_append, List.append_assoc] at read ⊢
      rw [readValue_list, read,
        itemsBehind_pretty items numbers.right indent (depth + 1) (item.draftAt (depth + 1)) (by omega)]
      rfl
  | object fields =>
    cases fields with
    | nil =>
      rw [(toList_pretty_nil indent).right] at room ⊢
      obtain ⟨fuel, rfl⟩ : ∃ less, fuel = less + 1 := ⟨fuel - 1, by simp at room; omega⟩
      rfl
    | cons field fields =>
      obtain ⟨name, value⟩ := field
      have start := length_lineStart_pos (indent + 1)
      have behind := length_linesBehind_pos '\x7d' indent (prettyFields (indent + 1) fields)
      rw [toList_pretty_object] at room ⊢
      simp only [List.length_cons, List.length_append] at room
      obtain ⟨fuel, rfl⟩ : ∃ less, fuel = less + 1 := ⟨fuel - 1, by omega⟩
      have first : readValue fuel (depth + 1) _ = _ :=
        readValue_pretty value numbers.left (indent + 1) (depth + 1)
          (endsNumber_linesBehind '\x7d' indent (prettyFields (indent + 1) fields) rest) (by omega)
      have read := readFields_field true (indent + 1) name first
      simp only [List.cons_append, List.append_assoc] at read ⊢
      rw [readValue_object, read,
        fieldsBehind_pretty fields numbers.right indent (depth + 1) name (value.draftAt (depth + 1)) (by omega)]
      rfl

theorem itemsBehind_pretty (items : List Json) {fuel : Nat} {rest : List Char}
    (numbers : itemsNumbersReadBack items) (indent depth : Nat) (item : Draft)
    (room : (linesBehind ']' indent (prettyItems (indent + 1) items)).length ≤ fuel) :
    itemsBehind fuel depth item (linesBehind ']' indent (prettyItems (indent + 1) items) ++ rest) =
      (item :: draftItemsAt depth items, none, some rest) := by
  match items with
  | [] =>
    rw [prettyItems, linesBehind, List.append_assoc, itemsBehind, skipSpace_lineStart,
      List.singleton_append, skipSpace_of_head (by decide)]
    rfl
  | next :: items =>
    have start := length_lineStart_pos (indent + 1)
    rw [prettyItems, linesBehind] at room ⊢
    simp only [List.length_cons, List.length_append] at room
    obtain ⟨fuel, rfl⟩ : ∃ less, fuel = less + 1 := ⟨fuel - 1, by omega⟩
    have first : readValue fuel depth _ = _ :=
      readValue_pretty next numbers.left (indent + 1) depth
        (endsNumber_linesBehind ']' indent (prettyItems (indent + 1) items) rest) (by omega)
    have read := readItems_item false (indent + 1) (startsValue_pretty (indent + 1) next numbers.left) first
    simp only [List.cons_append, List.append_assoc] at read ⊢
    rw [itemsBehind, skipSpace_of_head (by decide)]
    simp only [read, itemsBehind_pretty items numbers.right indent depth (next.draftAt depth)
      (show _ ≤ fuel by omega)]
    rfl

theorem fieldsBehind_pretty (fields : List (String × Json)) {fuel : Nat} {rest : List Char}
    (numbers : fieldsNumbersReadBack fields) (indent depth : Nat) (name : String) (value : Draft)
    (room : (linesBehind '\x7d' indent (prettyFields (indent + 1) fields)).length ≤ fuel) :
    fieldsBehind fuel depth name value (linesBehind '\x7d' indent (prettyFields (indent + 1) fields) ++ rest) =
      ((name, value) :: draftFieldsAt depth fields, none, some rest) := by
  match fields with
  | [] =>
    rw [prettyFields, linesBehind, List.append_assoc, fieldsBehind, skipSpace_lineStart,
      List.singleton_append, skipSpace_of_head (by decide)]
    rfl
  | (key, next) :: fields =>
    have start := length_lineStart_pos (indent + 1)
    rw [prettyFields, linesBehind, String.toList_append] at room ⊢
    simp only [List.length_cons, List.length_append] at room
    obtain ⟨fuel, rfl⟩ : ∃ less, fuel = less + 1 := ⟨fuel - 1, by omega⟩
    have first : readValue fuel depth _ = _ :=
      readValue_pretty next numbers.left (indent + 1) depth
        (endsNumber_linesBehind '\x7d' indent (prettyFields (indent + 1) fields) rest) (by omega)
    have read := readFields_field false (indent + 1) key first
    simp only [List.cons_append, List.append_assoc] at read ⊢
    rw [fieldsBehind, skipSpace_of_head (by decide)]
    simp only [read, fieldsBehind_pretty fields numbers.right indent depth key (next.draftAt depth)
      (show _ ≤ fuel by omega)]
    rfl

end

theorem Document.ofText_pretty (json : Json) (numbers : json.NumbersReadBack) :
    Document.ofText (json.pretty 0) = ⟨json.draftAt 0, false⟩ := by
  have room : (json.pretty 0).toList.length ≤ 2 * (json.pretty 0).toList.length + 2 := by omega
  have read := readValue_pretty json numbers 0 0 EndsNumber.nil room
  rw [List.append_nil] at read
  rw [Document.ofText, read]
  rfl

end Values

end TypedTree.Json
