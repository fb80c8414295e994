import TypedTree.Toml.Quoted
/-! Texts as TOML values. The plainest quotation is taken that needs no escape; a text that no quotation
holds as it is goes between double quotes with escapes. -/

namespace TypedTree.Toml

def isControl (char : Char) : Bool := !isPlain char && char ≠ '\n'

def longestRow (mark : Char) (count : Nat) : List Char → Nat
  | [] => count
  | char :: chars =>
    if char = mark then longestRow mark (count + 1) chars
    else max count (longestRow mark 0 chars)

def quotationOf (chars : List Char) : Quotation :=
  let controls := chars.any isControl
  let backslash := chars.contains '\\'
  let breaks := chars.contains '\n'
  let doubles := longestRow '"' 0 chars
  let singles := longestRow '\'' 0 chars
  if !controls && !backslash && doubles = 0 && !breaks then ⟨'"', false⟩
  else if !controls && singles = 0 && !breaks then ⟨'\'', false⟩
  else if !controls && !backslash && doubles ≤ 2 then ⟨'"', true⟩
  else if !controls && singles ≤ 2 then ⟨'\'', true⟩
  else ⟨'"', breaks⟩

def capitalHex (number : Nat) : List Char :=
  [(Nat.digitChar (number / 16)).toUpper, (Nat.digitChar (number % 16)).toUpper]

def escapeChar (char : Char) : List Char :=
  match char with
  | '\\' => ['\\', '\\']
  | '\n' => ['\\', 'n']
  | '\r' => ['\\', 'r']
  | '\t' => ['\\', 't']
  | '\x08' => ['\\', 'b']
  | '\x0c' => ['\\', 'f']
  | _ => if isControl char then ['\\', 'u', '0', '0'] ++ capitalHex char.toNat else [char]

/-- A text between double quotes. Over several lines, line ends stand for themselves, and so do marks
until three of them would follow each other. -/
def escapeText (spansLines : Bool) (row : Nat) : List Char → List Char
  | [] => []
  | '"' :: chars =>
    if spansLines && row < 2 then '"' :: escapeText spansLines (row + 1) chars
    else '\\' :: '"' :: escapeText spansLines 0 chars
  | char :: chars =>
    (if char = '\n' && spansLines then [char] else escapeChar char) ++ escapeText spansLines 0 chars

def quote (text : String) : String :=
  let chars := text.toList
  let quotation := quotationOf chars
  let marks := String.ofList (List.replicate (if quotation.spansLines then 3 else 1) quotation.mark)
  let opening := if quotation.spansLines && chars.contains '\n' then marks ++ "\n" else marks
  let content := if quotation.escapes then escapeText quotation.spansLines 0 chars else chars
  opening ++ String.ofList content ++ marks

end TypedTree.Toml
