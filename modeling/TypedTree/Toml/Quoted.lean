import TypedTree.Toml
import TypedTree.Decimal.Numeral
/-! Quoted texts as TOML reads them: between single or double quotes, on one line or on several. Only
double quotes allow escapes. -/

namespace TypedTree.Toml

structure Quotation where
  mark : Char
  /-- Whether the text may span lines; its marks are tripled then. -/
  spansLines : Bool

namespace Quotation

def escapes (quotation : Quotation) : Bool := quotation.mark = '"'

def holds (quotation : Quotation) (char : Char) : Bool :=
  isPlain char || (char = '\n' && quotation.spansLines)

end Quotation

inductive QuotedMode where
  | plain
  | escape
  | hex (missing : Nat) (value : Nat)
  | lineEnd
  | margin
  | marks (count : Nat)

structure QuotedReading where
  mode : QuotedMode := .plain
  reversed : List Char := []

def escaped? : Char → Option Char
  | '"' => some '"'
  | '\\' => some '\\'
  | 'b' => some '\x08'
  | 'f' => some '\x0c'
  | 'n' => some '\n'
  | 'r' => some '\r'
  | 't' => some '\t'
  | _ => none

def character? (number : Nat) : Option Char :=
  if number.isValidChar then some (Char.ofNat number) else none

namespace QuotedReading

def push (reading : QuotedReading) (char : Char) : QuotedReading :=
  ⟨.plain, char :: reading.reversed⟩

def pushMarks (reading : QuotedReading) (quotation : Quotation) (count : Nat) : QuotedReading :=
  ⟨.plain, List.replicate count quotation.mark ++ reading.reversed⟩

def text (reading : QuotedReading) : String := String.ofList reading.reversed.reverse

def plain? (reading : QuotedReading) (quotation : Quotation) (char : Char) : Option QuotedReading :=
  if char = '\\' && quotation.escapes then some { reading with mode := .escape }
  else if quotation.holds char then some (reading.push char)
  else none

def escape? (reading : QuotedReading) (quotation : Quotation) (char : Char) : Option QuotedReading :=
  if char = 'u' then some { reading with mode := .hex 3 0 }
  else if char = 'U' then some { reading with mode := .hex 7 0 }
  else if char = '\n' && quotation.spansLines then some { reading with mode := .margin }
  else if isBlank char && quotation.spansLines then some { reading with mode := .lineEnd }
  else (escaped? char).map reading.push

def digit? (reading : QuotedReading) (missing value : Nat) (char : Char) : Option QuotedReading := do
  let value := 16 * value + (← hexDigit? char)
  match missing with
  | 0 => (character? value).map reading.push
  | missing + 1 => some { reading with mode := .hex missing value }

end QuotedReading

/-- Reads a quoted text behind its opening marks: the text, and what follows its closing marks. A text
that spans lines may end with up to two marks of its own. -/
def readQuoted (quotation : Quotation) (reading : QuotedReading) :
    List Char → Option (String × List Char)
  | [] =>
    match reading.mode with
    | .marks count =>
      if 3 ≤ count then some ((reading.pushMarks quotation (count - 3)).text, []) else none
    | _ => none
  | char :: chars =>
    match reading.mode with
    | .plain =>
      if char = quotation.mark then
        if quotation.spansLines then readQuoted quotation { reading with mode := .marks 1 } chars
        else some (reading.text, chars)
      else do readQuoted quotation (← reading.plain? quotation char) chars
    | .marks count =>
      if char = quotation.mark then
        if count = 4 then some ((reading.pushMarks quotation 2).text, chars)
        else readQuoted quotation { reading with mode := .marks (count + 1) } chars
      else if 3 ≤ count then some ((reading.pushMarks quotation (count - 3)).text, char :: chars)
      else do readQuoted quotation (← (reading.pushMarks quotation count).plain? quotation char) chars
    | .escape => do readQuoted quotation (← reading.escape? quotation char) chars
    | .hex missing value => do readQuoted quotation (← reading.digit? missing value char) chars
    | .lineEnd =>
      if char = '\n' then readQuoted quotation { reading with mode := .margin } chars
      else if isBlank char then readQuoted quotation reading chars
      else none
    | .margin =>
      if char = '\n' || isBlank char then readQuoted quotation reading chars
      else if char = quotation.mark then readQuoted quotation { reading with mode := .marks 1 } chars
      else do readQuoted quotation (← reading.plain? quotation char) chars

def readOneLine (mark : Char) (chars : List Char) : Option (String × List Char) :=
  readQuoted ⟨mark, false⟩ {} chars

def readText (mark : Char) (chars : List Char) : Option (String × List Char) :=
  match chars with
  | second :: third :: rest =>
    if second = mark ∧ third = mark then
      readQuoted ⟨mark, true⟩ {} (if rest.head? = some '\n' then rest.tail else rest)
    else readOneLine mark chars
  | _ => readOneLine mark chars

end TypedTree.Toml
