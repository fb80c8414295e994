import TypedTree.Json.Number
import TypedTree.Json.Quoted
/-! Reading a text as JSON. The result is a draft that shows how far the text can be followed, so that
a reader of the draft meets a fault of the text and a fault of the values in their order. -/

namespace TypedTree.Json

/-- Lists and objects nested deeper than this can be passed over but not read. -/
def maxDepth : Nat := 127

def isSpace (char : Char) : Bool := char = ' ' || char = '\n' || char = '\t' || char = '\r'

def skipSpace (chars : List Char) : List Char := chars.dropWhile isSpace

def Break.hard (fault : Fault) : Break := ⟨fault, some fault⟩

def misplaced (chars : List Char) : Fault := if chars.isEmpty then .unfinished else .malformed

def readWord (value : Draft) : (word chars : List Char) → Draft × Option (List Char)
  | [], chars => (value, some chars)
  | _ :: _, [] => (.broken (.hard .unfinished), none)
  | expected :: word, char :: chars =>
    if expected = char then readWord value word chars else (.broken (.hard .malformed), none)

def enclosed (depth : Nat) (draft : Draft) : Draft :=
  if depth < maxDepth then draft else .broken ⟨.malformed, draft.passing⟩

mutual

def readValue : (fuel depth : Nat) → List Char → Draft × Option (List Char)
  | 0, _, _ => (.broken (.hard .unfinished), none)
  | fuel + 1, depth, chars =>
    match skipSpace chars with
    | [] => (.broken (.hard .unfinished), none)
    | 'n' :: chars => readWord .null "ull".toList chars
    | 't' :: chars => readWord (.bool true) "rue".toList chars
    | 'f' :: chars => readWord (.bool false) "alse".toList chars
    | '"' :: chars =>
      match readQuoted .plain {} chars with
      | .ok (some value, rest) => (.text value, some rest)
      | .ok (none, rest) => (.broken ⟨.malformed, none⟩, some rest)
      | .error stop => (.broken stop, none)
    | '[' :: chars =>
      let (items, ending, rest) := readItems fuel (depth + 1) true chars
      (enclosed depth (.list items ending), rest)
    | '\x7b' :: chars =>
      let (fields, ending, rest) := readFields fuel (depth + 1) true chars
      (enclosed depth (.object fields ending), rest)
    | char :: chars =>
      if char = '-' || isDigit char then
        match readNumber (char :: chars) with
        | .ok (value, rest) => (value, some rest)
        | .error fault => (.broken (.hard fault), none)
      else (.broken (.hard .malformed), none)

def readItems : (fuel depth : Nat) → (first : Bool) → List Char →
    List Draft × Option Break × Option (List Char)
  | 0, _, _, _ => ([], some (.hard .unfinished), none)
  | fuel + 1, depth, first, chars =>
    match skipSpace chars with
    | ']' :: rest => if first then ([], none, some rest) else ([], some (.hard .malformed), none)
    | chars =>
      match readValue fuel depth chars with
      | (item, none) => ([item], none, none)
      | (item, some rest) =>
        match skipSpace rest with
        | ',' :: rest =>
          let (items, ending, rest) := readItems fuel depth false rest
          (item :: items, ending, rest)
        | ']' :: rest => ([item], none, some rest)
        | rest => ([item], some (.hard (misplaced rest)), none)

/-- Reads the fields of an object behind its brace or behind a comma. A name that stands for no text
stops every reader of the object. -/
def readFields : (fuel depth : Nat) → (first : Bool) → List Char →
    List (String × Draft) × Option Break × Option (List Char)
  | 0, _, _, _ => ([], some (.hard .unfinished), none)
  | fuel + 1, depth, first, chars =>
    match skipSpace chars with
    | '\x7d' :: rest => if first then ([], none, some rest) else ([], some (.hard .malformed), none)
    | '"' :: chars =>
      match readQuoted .plain {} chars with
      | .error stop => ([], some stop, none)
      | .ok (name, rest) =>
        let (value, rest) := match skipSpace rest with
          | ':' :: rest => readValue fuel depth rest
          | rest => (.broken (.hard (misplaced rest)), none)
        let (fields, ending, rest) := match rest with
          | none => ([], none, none)
          | some rest =>
            match skipSpace rest with
            | ',' :: rest => readFields fuel depth false rest
            | '\x7d' :: rest => ([], none, some rest)
            | rest => ([], some (.hard (misplaced rest)), none)
        match name with
        | some name => ((name, value) :: fields, ending, rest)
        | none =>
          let passing := (value.passing.or (Draft.passingFields fields)).or (ending.bind Break.passing)
          ([], some ⟨.malformed, passing⟩, rest)
    | chars => ([], some (.hard (misplaced chars)), none)

end

structure Document where
  draft : Draft
  trailing : Bool

def Document.ofText (source : String) : Document :=
  let chars := source.toList
  let (draft, rest) := readValue (2 * chars.length + 2) 0 chars
  { draft, trailing := !(skipSpace (rest.getD [])).isEmpty }

def Document.read {α : Type} (document : Document) (read : Draft → Except Fault α) :
    Except Fault α := do
  let value ← read document.draft
  if document.trailing then .error .malformed else .ok value

def ofText (source : String) : Except Fault Json :=
  (Document.ofText source).read Draft.complete

end TypedTree.Json
