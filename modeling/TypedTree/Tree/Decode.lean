import TypedTree.Tree.Reading
import TypedTree.Json.Reader
/-! Program trees from their JSON form. Each value is read once in every role it may have in a tree,
from the readings of its parts; which role counts is up to the value around it. Imports come without
the programs they stand for. -/

namespace TypedTree

open Json (Fault Break Draft)

namespace Fields

def type (fields : Fields) : Except Fault Ty := do
  fields.check [role "name" Reading.text, role "isArray" Reading.flag,
    role "params" (Reading.optional Reading.types)]
  return { name := ← fields.required "name" Reading.text
           isArray := ← fields.withDefault "isArray" false Reading.flag
           params := ← fields.optional "params" Reading.types }

def typedName (fields : Fields) : Except Fault TypedName := do
  fields.check [role "name" Reading.text, role "type" Reading.type]
  return { name := ← fields.required "name" Reading.text
           type := ← fields.required "type" Reading.type }

def scope (fields : Fields) (lines : Reading → Except Fault (List Stmt)) :
    Except Fault (List Stmt) := do
  fields.check [role "lines" lines]
  fields.required "lines" lines

def call (fields : Fields) : Except Fault (Expr × List Expr × Option Ty) := do
  fields.check [role "from" Reading.expr, role "args" Reading.exprs,
    role "type" (Reading.optional Reading.type)]
  return (← fields.required "from" Reading.expr, ← fields.withDefault "args" [] Reading.exprs,
    ← fields.optional "type" Reading.type)

def inferredType : String × (Reading → Option Fault) :=
  role "type" (Reading.optional Reading.type)

def exprKinds : List String :=
  ["methodCall", "arithmetic", "variable", "indexing", "propertyAccess", "stringValue", "intValue",
    "boolValue", "realValue"]

def expr (fields : Fields) (inner : Bool) : Except Fault Expr := do
  match ← fields.kind exprKinds inner with
  | "methodCall" => do
    let (callee, args, type) ← fields.call
    return .call callee args type
  | "arithmetic" => do
    fields.check [role "operator" Reading.operator, role "left" Reading.expr,
      role "right" Reading.expr, inferredType]
    return .arithmetic (← fields.required "operator" Reading.operator)
      (← fields.required "left" Reading.expr) (← fields.required "right" Reading.expr)
      (← fields.optional "type" Reading.type)
  | "variable" => do
    fields.check [role "name" Reading.text, inferredType]
    return .var (← fields.required "name" Reading.text) (← fields.optional "type" Reading.type)
  | "indexing" => do
    fields.check [role "from" Reading.expr, role "index" Reading.expr, inferredType]
    return .index (← fields.required "from" Reading.expr) (← fields.required "index" Reading.expr)
      (← fields.optional "type" Reading.type)
  | "propertyAccess" => do
    fields.check [role "from" Reading.expr, role "to" Reading.text, inferredType]
    return .property (← fields.required "from" Reading.expr) (← fields.required "to" Reading.text)
      (← fields.optional "type" Reading.type)
  | "stringValue" => do
    fields.check [role "value" Reading.text, inferredType]
    return .string (← fields.required "value" Reading.text) (← fields.optional "type" Reading.type)
  | "intValue" => do
    fields.check [role "value" Reading.int, inferredType]
    return .int (← fields.required "value" Reading.int) (← fields.optional "type" Reading.type)
  | "boolValue" => do
    fields.check [role "value" Reading.flag, inferredType]
    return .bool (← fields.required "value" Reading.flag) (← fields.optional "type" Reading.type)
  | _ => do
    fields.check [role "value" Reading.real, inferredType]
    return .real (← fields.required "value" Reading.real) (← fields.optional "type" Reading.type)

def stmtKinds : List String := ["let", "assignment", "if", "methodCall", "scope"]

def stmt (fields : Fields) (inner : Bool) : Except Fault Stmt := do
  match ← fields.kind stmtKinds inner with
  | "let" => do
    fields.check [role "name" Reading.text, role "type" Reading.type,
      role "assignment" (Reading.optional Reading.expr)]
    return .declare (← fields.required "name" Reading.text) (← fields.required "type" Reading.type)
      (← fields.optional "assignment" Reading.expr)
  | "assignment" => do
    fields.check [role "to" Reading.expr, role "value" Reading.expr]
    return .assign (← fields.required "to" Reading.expr) (← fields.required "value" Reading.expr)
  | "if" => do
    fields.check [role "condition" Reading.expr, role "then" Reading.stmt,
      role "elseThen" (Reading.optional Reading.stmt)]
    return .branch (← fields.required "condition" Reading.expr)
      (← fields.required "then" Reading.stmt) (← fields.optional "elseThen" Reading.stmt)
  | "methodCall" => do
    let (callee, args, type) ← fields.call
    return .call callee args type
  | _ => do return .block (← fields.scope Reading.stmts)

def functionDecl (fields : Fields) : Except Fault FunctionDecl := do
  fields.check [role "exported" Reading.flag, role "name" Reading.text, role "type" Reading.type,
    role "params" Reading.typedNames, role "body" Reading.scope]
  return { exported := ← fields.withDefault "exported" false Reading.flag
           name := ← fields.required "name" Reading.text
           returns := ← fields.required "type" Reading.type
           params := ← fields.withDefault "params" [] Reading.typedNames
           body := ← fields.required "body" Reading.scope }

def objectDecl (fields : Fields) : Except Fault ObjectDecl := do
  fields.check [role "exported" Reading.flag, role "name" Reading.text,
    role "properties" Reading.typedNames]
  return { exported := ← fields.withDefault "exported" false Reading.flag
           name := ← fields.required "name" Reading.text
           properties := ← fields.withDefault "properties" [] Reading.typedNames }

def decl (fields : Fields) : Except Fault Decl := do
  match ← fields.kind ["function", "object"] false with
  | "function" => return .function (← fields.functionDecl)
  | _ => return .object (← fields.objectDecl)

def importEntry (fields : Fields) : Except Fault Import := do
  fields.check [role "path" Reading.text]
  return { path := ← fields.required "path" Reading.text }

def program (fields : Fields) : Except Fault Program := do
  fields.check [role "imports" Reading.imports, role "nodes" Reading.decls]
  return { imports := ← fields.withDefault "imports" [] Reading.imports
           decls := ← fields.required "nodes" Reading.decls }

end Fields

namespace Reading

def itemsFault (fault : Reading → Option Fault) (ending : Option Fault) : List Reading → Option Fault
  | [] => ending
  | item :: items => (fault item).or (itemsFault fault ending items)

def listOf {α : Type} (role : Reading → Except Fault α) (ending : Option Break)
    (items : List Reading) : Except Fault (List α) := do
  let values ← items.mapM role
  match ending with
  | some stop => .error stop.reading
  | none => .ok values

def ofInt (value : Int) : Reading :=
  { shapeless with
    int := if fitsInt64 value then .ok (Int64.ofInt value) else .error .shape
    real := .ok (Float.ofInt value)
    position := if 0 ≤ value then some value.toNat else none }

def ofText (value : String) : Reading :=
  { shapeless with
    text := .ok value
    operator := match Operator.ofSymbol? value with
      | some operator => .ok operator
      | none => .error .shape }

def ofList (items : List Reading) (ending : Option Break) : Reading :=
  { failing (itemsFault whole (ending.map Break.reading) items)
      (itemsFault passing (ending.bind Break.passing) items) .shape with
    types := listOf type ending items
    typedNames := listOf typedName ending items
    exprs := listOf expr ending items
    stmts := listOf stmt ending items
    outerStmts := listOf outerStmt ending items
    decls := listOf decl ending items
    imports := listOf importEntry ending items }

/-- Inside a node an operator may also be an object with its symbol as the only field, whose value is
empty. -/
def operatorField : List (String × Reading) → Except Fault Operator
  | [(symbol, reading)] =>
    match Operator.ofSymbol? symbol with
    | some operator => if reading.isNull then .ok operator else .error .shape
    | none => .error .shape
  | _ => .error .shape

def ofFields (fields : Fields) : Reading :=
  let values := fields.entries.map Prod.snd
  { failing (itemsFault whole (fields.ending.map Break.reading) values)
      (itemsFault passing (fields.ending.bind Break.passing) values) .shape with
    operator := operatorField fields.entries
    type := fields.type
    typedName := fields.typedName
    expr := fields.expr true
    stmt := fields.stmt true
    scope := fields.scope stmts
    outerExpr := fields.expr false
    outerStmt := fields.stmt false
    outerScope := fields.scope outerStmts
    bareCall := do
      let (callee, args, type) ← fields.call
      return .call callee args type
    bareFunction := fields.functionDecl
    decl := fields.decl
    importEntry := fields.importEntry
    program := fields.program }

end Reading

namespace Json.Draft

mutual

def reading : Draft → Reading
  | .null => { Reading.shapeless with isNull := true }
  | .bool value => { Reading.shapeless with flag := .ok value }
  | .int value => .ofInt value
  | .real value => { Reading.shapeless with real := .ok value }
  | .text value => .ofText value
  | .list items ending => .ofList (readings items) ending
  | .object fields ending => .ofFields ⟨fieldReadings fields, ending⟩
  | .broken stop => .failing (some stop.reading) stop.passing stop.reading

def readings : List Draft → List Reading
  | [] => []
  | item :: items => item.reading :: readings items

def fieldReadings : List (String × Draft) → List (String × Reading)
  | [] => []
  | (name, value) :: fields => (name, value.reading) :: fieldReadings fields

end

end Json.Draft

namespace Operator

/-- An operator from a whole text: its quoted symbol, or an object with the symbol as its only field and
no value for it. Any other text is malformed, even if it is JSON. -/
def ofText (source : String) : Except Fault Operator :=
  let document := Json.Document.ofText source
  match Json.skipSpace source.toList with
  | [] => .error .unfinished
  | '"' :: _ => document.read fun draft => draft.reading.operator
  | '\x7b' :: _ => document.read fun draft =>
    match draft with
    | .object [(symbol, value)] ending =>
      match ofSymbol? symbol, value, ending with
      | none, _, _ => .error .shape
      | some operator, .null, none => .ok operator
      | some _, .null, some stop => .error stop.reading
      | some _, .broken stop, _ => .error stop.reading
      | some _, _, _ => .error .shape
    | .object [] (some stop) => .error stop.reading
    | _ => .error .malformed
  | _ => .error .malformed

end Operator

end TypedTree
