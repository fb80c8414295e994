import TypedTree.Check.Environment
import TypedTree.Proofs.Parts
/-! The typing rules. A judgment gives types to expressions in a context of names, another one carries
the context through statements: a declaration extends it for the lines behind it, and nothing leaves a
branch or a block. -/

namespace TypedTree

abbrev Bindings (α : Type) := String → Option α

namespace Bindings

variable {α : Type}

def empty : Bindings α := fun _ => none

def bind (bindings : Bindings α) (name : String) (value : α) : Bindings α :=
  fun other => if other = name then some value else bindings other

def bindAll (bindings : Bindings α) : List (String × α) → Bindings α
  | [] => bindings
  | (name, value) :: entries => (bindings.bind name value).bindAll entries

end Bindings

def Import.exported (entry : Import) : List Decl :=
  entry.target.elim [] fun shared => shared.program.exported

/-- The declarations that the bodies of a program may refer to: what the imports export, in the order of
the imports, and then everything the program declares itself. -/
def Program.visible (program : Program) : List Decl :=
  program.imports.flatMap Import.exported ++ program.decls

/-- Every import has a program. -/
def Program.Resolved (program : Program) : Prop :=
  ∀ entry ∈ program.imports, entry.target.isSome = true

def Decl.functionType? : Decl → Option (String × Ty)
  | .function declaration => some (declaration.name, declaration.type)
  | .object _ => none

def Decl.objectProperties? : Decl → Option (String × Bindings Ty)
  | .function _ => none
  | .object declaration =>
    some (declaration.name, Bindings.empty.bindAll
      (declaration.properties.map fun property => (property.name, property.type)))

def Program.functions (program : Program) : Bindings Ty :=
  Bindings.empty.bindAll (program.visible.filterMap Decl.functionType?)

def Program.objects (program : Program) : Bindings (Bindings Ty) :=
  Bindings.empty.bindAll (program.visible.filterMap Decl.objectProperties?)

def FunctionDecl.names (program : Program) (declaration : FunctionDecl) : Bindings Ty :=
  program.functions.bindAll (declaration.params.map fun parameter => (parameter.name, parameter.type))

variable (objects : Bindings (Bindings Ty))

mutual

/-- An expression has a type, whatever types are written on it. -/
inductive HasType : Bindings Ty → Expr → Ty → Prop where
  | call {names callee args written type params} :
      callee.isPlace = true → HasType names callee type → type.params = some params →
      ArgsFit names params args → HasType names (.call callee args written) type
  | comparison {names operator left right written leftType rightType} :
      operator.isComparison = true → HasType names left leftType → HasType names right rightType →
      rightType.agrees leftType = true →
      HasType names (.arithmetic operator left right written) .bool
  | arithmetic {names operator left right written leftType rightType} :
      operator.isComparison = false → HasType names left leftType → HasType names right rightType →
      rightType.agrees leftType = true →
      HasType names (.arithmetic operator left right written) leftType
  | var {names name written type} : names name = some type → HasType names (.var name written) type
  | index {names base position written baseType positionType} :
      base.isPlace = true → HasType names base baseType → HasType names position positionType →
      baseType.isArray = true → positionType.isIndexer = true →
      HasType names (.index base position written) baseType.element
  | property {names base name written baseType properties type} :
      base.isPropertyBase = true → HasType names base baseType → baseType.isArray = false →
      objects baseType.name = some properties → properties name = some type →
      HasType names (.property base name written) type
  | string {names value written} : HasType names (.string value written) .string
  | int {names value written} : HasType names (.int value written) .int32
  | bool {names value written} : HasType names (.bool value written) .bool
  | real {names value written} : HasType names (.real value written) .real64

inductive ArgsFit : Bindings Ty → List Ty → List Expr → Prop where
  | done {names params} : ArgsFit names params []
  | more {names param params arg args found} :
      HasType names arg found → found.agrees param = true → ArgsFit names params args →
      ArgsFit names (param :: params) (arg :: args)

end

mutual

/-- A statement is well typed in the names before it, and leaves the names behind it. -/
inductive StmtTyped : Bindings Ty → Stmt → Bindings Ty → Prop where
  | declare {names name type} :
      names name = none → StmtTyped names (.declare name type none) (names.bind name type)
  | define {names name type value found} :
      names name = none → HasType objects names value found → found.agrees type = true →
      StmtTyped names (.declare name type (some value)) (names.bind name type)
  | assign {names target value found expected} :
      HasType objects names value found → target.isPlace = true →
      HasType objects names target expected → found.agrees expected = true →
      StmtTyped names (.assign target value) names
  | branch {names condition thenBranch elseBranch conditionType inside} :
      HasType objects names condition conditionType → StmtTyped names thenBranch inside →
      ElseTyped names elseBranch → conditionType.agrees .bool = true →
      StmtTyped names (.branch condition thenBranch elseBranch) names
  | call {names callee args written type} :
      HasType objects names (.call callee args written) type →
      StmtTyped names (.call callee args written) names
  | block {names lines inside} : LinesTyped names lines inside → StmtTyped names (.block lines) names

inductive ElseTyped : Bindings Ty → Option Stmt → Prop where
  | absent {names} : ElseTyped names none
  | present {names branch inside} : StmtTyped names branch inside → ElseTyped names (some branch)

inductive LinesTyped : Bindings Ty → List Stmt → Bindings Ty → Prop where
  | done {names} : LinesTyped names [] names
  | more {names line lines between behind} :
      StmtTyped names line between → LinesTyped between lines behind →
      LinesTyped names (line :: lines) behind

end

def Expr.Truthful (names : Bindings Ty) (expr : Expr) : Prop :=
  ∃ type, expr.type? = some type ∧ ∀ other, HasType objects names expr other ↔ other = type

def Stmt.namesAfter (names : Bindings Ty) : Stmt → Bindings Ty
  | .declare name type _ => names.bind name type
  | .assign .. | .branch .. | .call .. | .block .. => names

mutual

/-- Every expression in a statement, with all its parts, carries the type it has where it stands. -/
def Stmt.Truthful (names : Bindings Ty) : Stmt → Prop
  | .declare _ _ value => ∀ part ∈ value.elim [] Expr.parts, part.Truthful objects names
  | .assign target value => ∀ part ∈ value.parts ++ target.parts, part.Truthful objects names
  | .branch condition thenBranch elseBranch =>
    (∀ part ∈ condition.parts, part.Truthful objects names) ∧ thenBranch.Truthful names ∧
      elseTruthful names elseBranch
  | .call callee args type => ∀ part ∈ (Expr.call callee args type).parts, part.Truthful objects names
  | .block lines => linesTruthful names lines

def elseTruthful (names : Bindings Ty) : Option Stmt → Prop
  | none => True
  | some branch => branch.Truthful names

def linesTruthful (names : Bindings Ty) : List Stmt → Prop
  | [] => True
  | line :: lines => line.Truthful names ∧ linesTruthful (line.namesAfter names) lines

end

/-- The body of a function is well typed in its program. -/
def FunctionDecl.WellTyped (program : Program) (declaration : FunctionDecl) : Prop :=
  ∃ behind, LinesTyped program.objects (declaration.names program) declaration.body behind

def FunctionDecl.Truthful (program : Program) (declaration : FunctionDecl) : Prop :=
  linesTruthful program.objects (declaration.names program) declaration.body

end TypedTree
