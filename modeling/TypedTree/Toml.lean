/-! TOML values. -/

namespace TypedTree

inductive Toml where
  | text (value : String)
  | int (value : Int)
  | real (value : Float)
  | bool (value : Bool)
  | moment (written : String)
  | list (items : List Toml)
  | table (entries : List (String × Toml))

namespace Toml

def isBlank (char : Char) : Bool := char = ' ' || char = '\t'

def isPlain (char : Char) : Bool := char = '\t' || (32 ≤ char.toNat && char ≠ '\x7f')

def skipBlanks (chars : List Char) : List Char := chars.dropWhile isBlank

def lineFeeds : List Char → List Char
  | [] => []
  | '\r' :: '\n' :: chars => '\n' :: lineFeeds chars
  | char :: chars => char :: lineFeeds chars

end Toml

end TypedTree
