import TypedTree.Ty
import TypedTree.Operator
/-! Program trees. Every expression has room for the type a check infers for it; imported programs
are shared, and the identity of a shared program is part of the tree. -/

namespace TypedTree

/-- Expressions. The last argument of each form is its inferred type, absent until checked. -/
inductive Expr where
  | call (callee : Expr) (args : List Expr) (type : Option Ty)
  | arithmetic (operator : Operator) (left right : Expr) (type : Option Ty)
  | var (name : String) (type : Option Ty)
  | index (base index : Expr) (type : Option Ty)
  | property (base : Expr) (name : String) (type : Option Ty)
  | string (value : String) (type : Option Ty)
  | int (value : Int64) (type : Option Ty)
  | bool (value : Bool) (type : Option Ty)
  | real (value : Float) (type : Option Ty)

inductive Stmt where
  | declare (name : String) (type : Ty) (value : Option Expr)
  | assign (target value : Expr)
  | branch (condition : Expr) (thenBranch : Stmt) (elseBranch : Option Stmt)
  | call (callee : Expr) (args : List Expr) (type : Option Ty)
  | block (lines : List Stmt)

structure FunctionDecl where
  exported : Bool := false
  name : String
  returns : Ty
  params : List TypedName := []
  body : List Stmt

structure ObjectDecl where
  exported : Bool := false
  name : String
  properties : List TypedName := []

inductive Decl where
  | function (declaration : FunctionDecl)
  | object (declaration : ObjectDecl)

mutual

structure Program where
  imports : List Import := []
  decls : List Decl := []

structure Import where
  path : String
  target : Option Module := none

/-- A program that several imports may share. Two imports share a program exactly when its `id` is
the same. -/
structure Module where
  id : Nat
  program : Program

end

section Induction

variable {motive : Program → Prop}

mutual

@[elab_as_elim] theorem Program.importInduction
    (step : ∀ imports decls, (∀ entry ∈ imports, ∀ shared, entry.target = some shared →
      motive shared.program) → motive ⟨imports, decls⟩) (program : Program) : motive program := by
  match program with
  | ⟨imports, decls⟩ => exact step imports decls (importsInduction step imports)

theorem importsInduction
    (step : ∀ imports decls, (∀ entry ∈ imports, ∀ shared, entry.target = some shared →
      motive shared.program) → motive ⟨imports, decls⟩) (imports : List Import) :
    ∀ entry ∈ imports, ∀ shared, entry.target = some shared → motive shared.program := by
  match imports with
  | [] => exact fun _ member => (nomatch member)
  | entry :: imports =>
    intro other member
    rcases List.mem_cons.mp member with same | later
    · rw [same]
      exact Import.targetInduction step entry
    · exact importsInduction step imports other later

theorem Import.targetInduction
    (step : ∀ imports decls, (∀ entry ∈ imports, ∀ shared, entry.target = some shared →
      motive shared.program) → motive ⟨imports, decls⟩) (entry : Import) :
    ∀ shared, entry.target = some shared → motive shared.program := by
  match entry with
  | ⟨_, target⟩ => exact targetInduction step target

theorem targetInduction
    (step : ∀ imports decls, (∀ entry ∈ imports, ∀ shared, entry.target = some shared →
      motive shared.program) → motive ⟨imports, decls⟩) (target : Option Module) :
    ∀ shared, target = some shared → motive shared.program := by
  match target with
  | none => exact fun _ found => (nomatch found)
  | some ⟨_, program⟩ =>
    intro shared found
    cases found
    exact Program.importInduction step program

end

end Induction

namespace Expr

def type? : Expr → Option Ty
  | call _ _ type | arithmetic _ _ _ type | var _ type | index _ _ type | property _ _ type
  | string _ type | int _ type | bool _ type | real _ type => type

def decorate (inferred : Ty) : Expr → Expr
  | call callee args _ => call callee args (some inferred)
  | arithmetic operator left right _ => arithmetic operator left right (some inferred)
  | var name _ => var name (some inferred)
  | index base position _ => index base position (some inferred)
  | property base name _ => property base name (some inferred)
  | string value _ => string value (some inferred)
  | int value _ => int value (some inferred)
  | bool value _ => bool value (some inferred)
  | real value _ => real value (some inferred)

def isPlace : Expr → Bool
  | var .. | index .. | property .. => true
  | call .. | arithmetic .. | string .. | int .. | bool .. | real .. => false

def isPropertyBase : Expr → Bool
  | call .. => true
  | other => other.isPlace

def toStmt? : Expr → Option Stmt
  | call callee args type => some (.call callee args type)
  | _ => none

end Expr

namespace Stmt

end Stmt

namespace Decl

def name : Decl → String
  | function declaration => declaration.name
  | object declaration => declaration.name

def exported : Decl → Bool
  | function declaration => declaration.exported
  | object declaration => declaration.exported

def makeExported : Decl → Decl
  | function declaration => function { declaration with exported := true }
  | object declaration => object { declaration with exported := true }

end Decl

namespace FunctionDecl

/-- The type under which callers see the function. -/
def type (declaration : FunctionDecl) : Ty :=
  .function declaration.returns (declaration.params.map TypedName.type)

end FunctionDecl

namespace Program

def exported (program : Program) : List Decl := program.decls.filter Decl.exported

/-- The program every import of `system` stands for: a single exported function `log`. -/
def system : Program :=
  { decls := [.function
      { exported := true, name := "log", returns := .void
        params := [⟨"message", .string⟩], body := [] }] }

/-- Takes the programs away from all imports. -/
def unresolved (program : Program) : Program :=
  { program with imports := program.imports.map fun entry => { path := entry.path } }

end Program

end TypedTree
