import TypedTree.Toml.Document
import TypedTree.Toml.Quoted
import TypedTree.Toml.Scalar
/-! Reading a TOML text as the statements it makes, one after another. -/

namespace TypedTree.Toml

/-- Values, and keys of one name after another, are not nested as deep as this. -/
def depthLimit : Nat := 80

def isBare (char : Char) : Bool :=
  ('a' ≤ char && char ≤ 'z') || ('A' ≤ char && char ≤ 'Z') || isDigit char || char = '_' || char = '-'

def readName (chars : List Char) : Option (String × List Char) :=
  match chars with
  | '"' :: chars => readOneLine '"' chars
  | '\'' :: chars => readOneLine '\'' chars
  | chars =>
    let name := chars.takeWhile isBare
    if name.isEmpty then none else some (String.ofList name, chars.dropWhile isBare)

def readNames : (fuel : Nat) → List Char → Option (List String × List Char)
  | 0, _ => none
  | fuel + 1, chars => do
    let (name, chars) ← readName (skipBlanks chars)
    match skipBlanks chars with
    | '.' :: chars => (readNames fuel chars).map fun (names, rest) => (name :: names, rest)
    | rest => some ([name], rest)

def readKey (chars : List Char) : Option (Key × List Char) := do
  let (names, rest) ← readNames depthLimit chars
  if names.length < depthLimit then some (⟨names.dropLast, names.getLastD ""⟩, rest) else none

def skipLines (inComment : Bool) : List Char → Option (List Char)
  | [] => some []
  | char :: chars =>
    if char = '\n' then skipLines false chars
    else if inComment then
      if isPlain char then skipLines true chars else none
    else if char = '#' then skipLines true chars
    else if isBlank char then skipLines false chars
    else some (char :: chars)

def skipLineEnd (chars : List Char) : Option (List Char) :=
  match skipBlanks chars with
  | [] => some []
  | '\n' :: chars => some chars
  | '#' :: chars =>
    match chars.dropWhile isPlain with
    | [] => some []
    | '\n' :: chars => some chars
    | _ => none
  | _ => none

def readWord (value : Toml) : (word chars : List Char) → Option (Toml × List Char)
  | [], chars => some (value, chars)
  | _ :: _, [] => none
  | expected :: word, char :: chars => if expected = char then readWord value word chars else none

mutual

def readValue : (fuel depth : Nat) → List Char → Option (Toml × List Char)
  | 0, _, _ => none
  | _ + 1, _, [] => none
  | fuel + 1, depth, char :: chars =>
    match char with
    | '"' => (readText '"' chars).map fun (value, rest) => (.text value, rest)
    | '\'' => (readText '\'' chars).map fun (value, rest) => (.text value, rest)
    | '[' =>
      if depth + 1 < depthLimit then do
        let (items, rest) ← readItems fuel (depth + 1) chars
        some (.list items, rest)
      else none
    | '\x7b' =>
      if depth + 1 < depthLimit then do
        let (assignments, rest) ← readAssignments fuel (depth + 1) true chars
        some (.table (closed (← assignments.foldlM Entries.assign [])), rest)
      else none
    | 't' => readWord (.bool true) "rue".toList chars
    | 'f' => readWord (.bool false) "alse".toList chars
    | _ => readScalar (char :: chars)

def readItems : (fuel depth : Nat) → List Char → Option (List Toml × List Char)
  | 0, _, _ => none
  | fuel + 1, depth, chars => do
    match ← skipLines false chars with
    | ']' :: rest => some ([], rest)
    | chars =>
      let (item, chars) ← readValue fuel depth chars
      match ← skipLines false chars with
      | ',' :: chars => (readItems fuel depth chars).map fun (items, rest) => (item :: items, rest)
      | ']' :: rest => some ([item], rest)
      | _ => none

def readAssignments : (fuel depth : Nat) → (first : Bool) → List Char →
    Option (List Assignment × List Char)
  | 0, _, _, _ => none
  | fuel + 1, depth, first, chars =>
    match skipBlanks chars with
    | '\x7d' :: rest => if first then some ([], rest) else none
    | chars => do
      let (assignment, chars) ← readAssignment fuel depth chars
      match skipBlanks chars with
      | ',' :: chars =>
        (readAssignments fuel depth false chars).map fun (rest, chars) => (assignment :: rest, chars)
      | '\x7d' :: rest => some ([assignment], rest)
      | _ => none

def readAssignment : (fuel depth : Nat) → List Char → Option (Assignment × List Char)
  | 0, _, _ => none
  | fuel + 1, depth, chars => do
    let (key, chars) ← readKey chars
    match chars with
    | '=' :: chars =>
      let (value, rest) ← readValue fuel depth (skipBlanks chars)
      some (⟨key, value⟩, rest)
    | _ => none

end

def readHeader (closing : List Char) (chars : List Char) : Option (Key × List Char) := do
  let (key, chars) ← readKey chars
  if closing.isPrefixOf chars then some (key, chars.drop closing.length) else none

def readStatement (fuel : Nat) : List Char → Option (Statement × List Char)
  | '[' :: '[' :: chars =>
    (readHeader [']', ']'] chars).map fun (key, rest) => (.element key, rest)
  | '[' :: chars => (readHeader [']'] chars).map fun (key, rest) => (.table key, rest)
  | chars => (readAssignment fuel 0 chars).map fun (assignment, rest) => (.assign assignment, rest)

def readStatements : (fuel : Nat) → List Char → Option (List Statement)
  | 0, _ => none
  | fuel + 1, chars => do
    match ← skipLines false chars with
    | [] => some []
    | chars =>
      let (statement, chars) ← readStatement fuel chars
      let rest ← readStatements fuel (← skipLineEnd chars)
      some (statement :: rest)

def ofText? (source : String) : Option Toml := do
  let chars := lineFeeds (if source.toList.head? = some '\uFEFF' then source.toList.tail else source.toList)
  let statements ← readStatements (4 * chars.length + 4) chars
  (assemble statements).map .table

end TypedTree.Toml
