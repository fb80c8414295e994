import TypedTree.Tree
import TypedTree.Table
import TypedTree.Error
/-! What the functions of a program may refer to: everything its imports export, then everything the
program declares itself. A later declaration replaces an earlier one of the same name and sort. -/

namespace TypedTree

structure ObjectType where
  name : String
  properties : Table String Ty := .empty

namespace ObjectType

def withProperty (object : ObjectType) (name : String) (type : Ty) : ObjectType :=
  { object with properties := object.properties.insert name type }

def property? (object : ObjectType) (name : String) : Option Ty := object.properties.find? name

end ObjectType

/-- The object type of a declaration; of two properties with one name the last counts. -/
def ObjectDecl.objectType (declaration : ObjectDecl) : ObjectType :=
  { name := declaration.name
    properties := Table.empty.insertAll
      (declaration.properties.map fun property => (property.name, property.type)) }

structure Environment where
  functions : Table String Ty := .empty
  objects : Table String ObjectType := .empty

namespace Environment

def declare (environment : Environment) : Decl → Environment
  | .function declaration =>
    { environment with
      functions := environment.functions.insert declaration.name declaration.type }
  | .object declaration =>
    { environment with
      objects := environment.objects.insert declaration.name declaration.objectType }

def declareAll (environment : Environment) (decls : List Decl) : Environment :=
  decls.foldl declare environment

def importAll (environment : Environment) : List Import → Except Error Environment
  | [] => .ok environment
  | entry :: imports =>
    match entry.target with
    | none => .error (.unresolvedImport entry.path)
    | some shared => (environment.declareAll shared.program.exported).importAll imports

def ofProgram (program : Program) : Except Error Environment := do
  let imported ← importAll {} program.imports
  return imported.declareAll program.decls

def function? (environment : Environment) (name : String) : Option Ty :=
  environment.functions.find? name

def object? (environment : Environment) (name : String) : Option ObjectType :=
  environment.objects.find? name

end Environment

end TypedTree
