import TypedTree.Tree
import TypedTree.Json
/-! How a JSON value reads in the roles it may have in a program tree, and how the fields of records and
nodes are found. Records are read field by field, in the order of the text. A node with a `kind` is
first read as a whole, so that a fault of the text inside it comes before a fault of its shape, except
that a kind that is repeated or unknown is reported where it stands. -/

namespace TypedTree

open Json (Fault Break Draft)

/-- How one value reads in each of its possible roles. Outer nodes are not part of another node and must
give their kind by name; a bare call or function comes without a kind. -/
structure Reading where
  whole : Option Fault
  passing : Option Fault
  isNull : Bool := false
  text : Except Fault String
  flag : Except Fault Bool
  int : Except Fault Int64
  real : Except Fault Float
  operator : Except Fault Operator
  type : Except Fault Ty
  types : Except Fault (List Ty)
  typedName : Except Fault TypedName
  typedNames : Except Fault (List TypedName)
  expr : Except Fault Expr
  exprs : Except Fault (List Expr)
  stmt : Except Fault Stmt
  stmts : Except Fault (List Stmt)
  scope : Except Fault (List Stmt)
  outerExpr : Except Fault Expr
  outerStmt : Except Fault Stmt
  outerStmts : Except Fault (List Stmt)
  outerScope : Except Fault (List Stmt)
  bareCall : Except Fault Expr
  bareFunction : Except Fault FunctionDecl
  decl : Except Fault Decl
  decls : Except Fault (List Decl)
  importEntry : Except Fault Import
  imports : Except Fault (List Import)
  program : Except Fault Program
  /-- A position in a list of kinds, which inner nodes may give in place of the kind. -/
  position : Option Nat := none

namespace Reading

def failing (whole passing : Option Fault) (fault : Fault) : Reading where
  whole := whole
  passing := passing
  text := .error fault
  flag := .error fault
  int := .error fault
  real := .error fault
  operator := .error fault
  type := .error fault
  types := .error fault
  typedName := .error fault
  typedNames := .error fault
  expr := .error fault
  exprs := .error fault
  stmt := .error fault
  stmts := .error fault
  scope := .error fault
  outerExpr := .error fault
  outerStmt := .error fault
  outerStmts := .error fault
  outerScope := .error fault
  bareCall := .error fault
  bareFunction := .error fault
  decl := .error fault
  decls := .error fault
  importEntry := .error fault
  imports := .error fault
  program := .error fault

def shapeless : Reading := failing none none .shape

def optional {α : Type} (role : Reading → Except Fault α) (reading : Reading) :
    Except Fault (Option α) :=
  if reading.isNull then .ok none else (role reading).map some

end Reading

def faultOf {α : Type} : Except Fault α → Option Fault
  | .ok _ => none
  | .error fault => some fault

structure Fields where
  entries : List (String × Reading)
  ending : Option Break

namespace Fields

/-- How the known fields of a record are read; only the fault matters. -/
abbrev Roles := List (String × (Reading → Option Fault))

def role {α : Type} (name : String) (read : Reading → Except Fault α) :
    String × (Reading → Option Fault) := (name, fun reading => faultOf (read reading))

def fieldFault (roles : Roles) (seen : List String) (name : String) (reading : Reading) :
    Option Fault :=
  match roles.find? fun role => role.1 = name with
  | none => reading.passing
  | some role => if seen.contains name then some .shape else role.2 reading

def firstFault (roles : Roles) (seen : List String) : List (String × Reading) → Option Fault
  | [] => none
  | (name, reading) :: entries =>
    (fieldFault roles seen name reading).or (firstFault roles (name :: seen) entries)

def check (fields : Fields) (roles : Roles) : Except Fault Unit :=
  match (firstFault roles [] fields.entries).or (fields.ending.map Break.reading) with
  | some fault => .error fault
  | none => .ok ()

def find? (fields : Fields) (name : String) : Option Reading :=
  (fields.entries.find? fun entry => entry.1 = name).map Prod.snd

def required {α : Type} (fields : Fields) (name : String) (read : Reading → Except Fault α) :
    Except Fault α :=
  match fields.find? name with
  | some reading => read reading
  | none => .error .shape

def withDefault {α : Type} (fields : Fields) (name : String) (absent : α)
    (read : Reading → Except Fault α) : Except Fault α :=
  match fields.find? name with
  | some reading => read reading
  | none => .ok absent

def optional {α : Type} (fields : Fields) (name : String) (read : Reading → Except Fault α) :
    Except Fault (Option α) :=
  fields.withDefault name none (Reading.optional read)

def kindOf (kinds : List String) (inner : Bool) (reading : Reading) : Except Fault String :=
  match reading.position with
  | some position =>
    if inner then
      match kinds[position]? with
      | some kind => .ok kind
      | none => .error .shape
    else .error .shape
  | none => do
    let kind ← reading.text
    if kinds.contains kind then .ok kind else .error .shape

def scanKind (kinds : List String) (inner : Bool) (found : Option String) :
    List (String × Reading) → Except Fault (Option String)
  | [] => .ok found
  | (name, reading) :: entries =>
    if name = "kind" then
      match found with
      | some _ => .error .shape
      | none => do
        let kind ← kindOf kinds inner reading
        scanKind kinds inner (some kind) entries
    else
      match reading.whole with
      | some fault => .error fault
      | none => scanKind kinds inner found entries

/-- The kind of a node. An inner node may give it by its position among the kinds. -/
def kind (fields : Fields) (kinds : List String) (inner : Bool) : Except Fault String := do
  let found ← scanKind kinds inner none fields.entries
  match fields.ending, found with
  | some stop, _ => .error stop.reading
  | none, some kind => .ok kind
  | none, none => .error .shape

end Fields

end TypedTree
