/-! Paths of files as texts: pieces with slashes between them. Nothing is looked up, and `..` stays
where it is. -/

namespace TypedTree.Path

def pieces : List Char → List (List Char)
  | [] => [[]]
  | char :: chars =>
    if char = '/' then [] :: pieces chars
    else match pieces chars with
      | [] => [[char]]
      | piece :: rest => (char :: piece) :: rest

def joined : List (List Char) → List Char
  | [] => []
  | [piece] => piece
  | piece :: rest => piece ++ '/' :: joined rest

theorem pieces_ne_nil (chars : List Char) : pieces chars ≠ [] := by
  cases chars with
  | nil => simp [pieces]
  | cons char chars =>
    simp only [pieces]
    split
    · simp
    · split <;> simp

def isIdle (piece : List Char) : Bool := piece = [] || piece = ['.']

/-- A path from its last piece back to its start. Idle pieces at the end are left out. -/
structure Route where
  start : List Char
  back : List (List Char)

namespace Route

def ofList : List Char → Route
  | '/' :: chars => ⟨['/'], (pieces chars).reverse.dropWhile isIdle⟩
  | ['.'] => ⟨['.'], []⟩
  | '.' :: '/' :: chars => ⟨['.'], (pieces ('/' :: chars)).reverse.dropWhile isIdle⟩
  | chars => ⟨[], (pieces chars).reverse.dropWhile isIdle⟩

def text (route : Route) : String := String.ofList (route.start ++ joined route.back.reverse)

end Route

def isAbsolute (path : String) : Bool := path.toList.head? = some '/'

def join (base path : String) : String :=
  if isAbsolute path || base.isEmpty then path
  else if base.toList.getLast? = some '/' then base ++ path
  else base ++ "/" ++ path

def parent? (path : String) : Option String :=
  let route := Route.ofList path.toList
  match route.back with
  | [] => if route.start = ['.'] then some "" else none
  | _ :: back => some (Route.text ⟨route.start, back.dropWhile isIdle⟩)

def fileName? (path : String) : Option String :=
  match (Route.ofList path.toList).back with
  | [] => none
  | name :: _ => if name = ['.', '.'] then none else some (String.ofList name)

/-- A file name before and behind its last dot. A dot at the beginning separates nothing. -/
def splitName (name : List Char) : List Char × Option (List Char) :=
  let extension := (name.reverse.takeWhile (· ≠ '.')).reverse
  let stem := (name.reverse.dropWhile (· ≠ '.')).reverse.dropLast
  if stem.isEmpty then (name, none) else (stem, some extension)

def extension? (path : String) : Option String :=
  (fileName? path).bind fun name => (splitName name.toList).2.map String.ofList

def withExtension (path extension : String) : String :=
  let route := Route.ofList path.toList
  match route.back with
  | [] => path
  | name :: back =>
    if name = ['.', '.'] then path
    else Route.text ⟨route.start, ((splitName name).1 ++ '.' :: extension.toList) :: back⟩

end TypedTree.Path
