import TypedTree.Json
import TypedTree.Decimal.Numeral
/-! Quoted texts as JSON writes them. Characters outside the basic plane may be escaped as a pair of
surrogates; a surrogate without its partner stands for no character. -/

namespace TypedTree.Json

inductive TextMode where
  | plain
  | escape
  | hex (missing : Nat) (value : Nat)

structure TextReading where
  reversed : List Char := []
  /-- The first half of a surrogate pair whose second half must follow. -/
  high : Option Nat := none
  sound : Bool := true

namespace TextReading

def alone (reading : TextReading) : TextReading :=
  if reading.high.isSome then { reading with high := none, sound := false } else reading

def push (reading : TextReading) (char : Char) : TextReading :=
  { reading.alone with reversed := char :: reading.reversed }

def pushUnit (reading : TextReading) (unit : Nat) : TextReading :=
  if 0xDC00 ≤ unit ∧ unit < 0xE000 then
    match reading.high with
    | some high =>
      { reading with
        high := none
        reversed := Char.ofNat (0x10000 + (high - 0xD800) * 0x400 + (unit - 0xDC00)) :: reading.reversed }
    | none => { reading with sound := false }
  else if 0xD800 ≤ unit ∧ unit < 0xDC00 then { reading.alone with high := some unit }
  else reading.push (Char.ofNat unit)

def stop (reading : TextReading) (fault : Fault) : Break :=
  { reading := if reading.sound then fault else .malformed, passing := some fault }

def result (reading : TextReading) : Option String :=
  if reading.alone.sound then some (String.ofList reading.reversed.reverse) else none

end TextReading

def escaped? : Char → Option Char
  | '"' => some '"'
  | '\\' => some '\\'
  | '/' => some '/'
  | 'b' => some '\x08'
  | 'f' => some '\x0c'
  | 'n' => some '\n'
  | 'r' => some '\r'
  | 't' => some '\t'
  | _ => none

/-- Reads a quoted text behind its opening quote: the text and what follows its closing quote, or the
break at which it ends. -/
def readQuoted (mode : TextMode) (reading : TextReading) :
    List Char → Except Break (Option String × List Char)
  | [] => .error (reading.stop .unfinished)
  | char :: rest =>
    match mode with
    | .plain =>
      if char = '"' then .ok (reading.result, rest)
      else if char = '\\' then readQuoted .escape reading rest
      else if char.toNat < 32 then .error (reading.alone.stop .malformed)
      else readQuoted .plain (reading.push char) rest
    | .escape =>
      if char = 'u' then readQuoted (.hex 3 0) reading rest
      else match escaped? char with
        | some meant => readQuoted .plain (reading.push meant) rest
        | none => .error (reading.stop .malformed)
    | .hex missing value =>
      match hexDigit? char with
      | none => .error (reading.stop .malformed)
      | some digit =>
        match missing with
        | 0 => readQuoted .plain (reading.pushUnit (16 * value + digit)) rest
        | missing + 1 => readQuoted (.hex missing (16 * value + digit)) reading rest

end TypedTree.Json
