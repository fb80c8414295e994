import TypedTree.Check.Program
/-! Trees without the types a check writes on them. Erasing these types changes nothing else, the
sharing of imported programs included, and diagnostics never quote them. -/

namespace TypedTree

mutual

def Expr.erase : Expr → Expr
  | .call callee args _ => .call callee.erase (eraseArgs args) none
  | .arithmetic operator left right _ => .arithmetic operator left.erase right.erase none
  | .var name _ => .var name none
  | .index base position _ => .index base.erase position.erase none
  | .property base name _ => .property base.erase name none
  | .string value _ => .string value none
  | .int value _ => .int value none
  | .bool value _ => .bool value none
  | .real value _ => .real value none

def eraseArgs : List Expr → List Expr
  | [] => []
  | arg :: args => arg.erase :: eraseArgs args

end

mutual

def Stmt.erase : Stmt → Stmt
  | .declare name type value => .declare name type (value.map Expr.erase)
  | .assign target value => .assign target.erase value.erase
  | .branch condition thenBranch elseBranch =>
    .branch condition.erase thenBranch.erase (eraseElse elseBranch)
  | .call callee args _ => .call callee.erase (eraseArgs args) none
  | .block lines => .block (eraseLines lines)

def eraseElse : Option Stmt → Option Stmt
  | none => none
  | some branch => some branch.erase

def eraseLines : List Stmt → List Stmt
  | [] => []
  | line :: lines => line.erase :: eraseLines lines

end

def FunctionDecl.erase (declaration : FunctionDecl) : FunctionDecl :=
  { declaration with body := eraseLines declaration.body }

def Decl.erase : Decl → Decl
  | .function declaration => .function declaration.erase
  | .object declaration => .object declaration

mutual

/-- The program without inferred types, in itself and in all programs it imports. The identities of
shared programs stay. -/
def Program.erase : Program → Program
  | ⟨imports, decls⟩ => ⟨eraseImports imports, decls.map Decl.erase⟩

def eraseImports : List Import → List Import
  | [] => []
  | entry :: imports => Import.erase entry :: eraseImports imports

def Import.erase : Import → Import
  | ⟨path, target⟩ => ⟨path, eraseTarget target⟩

def eraseTarget : Option Module → Option Module
  | none => none
  | some shared => some (Module.erase shared)

def Module.erase : Module → Module
  | ⟨id, program⟩ => ⟨id, program.erase⟩

end

@[simp] theorem Expr.isPlace_erase (expr : Expr) : expr.erase.isPlace = expr.isPlace := by
  cases expr <;> rfl

mutual

@[simp] theorem Expr.render_erase (expr : Expr) : expr.erase.render = expr.render := by
  match expr with
  | .call callee args _ =>
    simp only [Expr.erase, Expr.render, Expr.render_erase callee, renderArgs_erase args]
  | .arithmetic _ left right _ =>
    simp only [Expr.erase, Expr.render, Expr.render_erase left, Expr.render_erase right]
  | .index base position _ =>
    simp only [Expr.erase, Expr.render, Expr.render_erase base, Expr.render_erase position]
  | .property base _ _ => simp only [Expr.erase, Expr.render, Expr.render_erase base]
  | .var .. | .string .. | .int .. | .bool .. | .real .. => simp only [Expr.erase, Expr.render]

@[simp] theorem renderArgs_erase (args : List Expr) : renderArgs (eraseArgs args) = renderArgs args := by
  match args with
  | [] => rfl
  | arg :: args => simp only [eraseArgs, renderArgs, Expr.render_erase arg, renderArgs_erase args]

end

mutual

@[simp] theorem Stmt.render_erase (stmt : Stmt) : stmt.erase.render = stmt.render := by
  match stmt with
  | .declare _ _ none => rfl
  | .declare _ _ (some value) =>
    simp only [Stmt.erase, Option.map, Stmt.render, renderInitializer, Expr.render_erase]
  | .assign _ _ => simp only [Stmt.erase, Stmt.render, Expr.render_erase]
  | .branch _ thenBranch elseBranch =>
    simp only [Stmt.erase, Stmt.render, Expr.render_erase, Stmt.render_erase thenBranch,
      renderElse_erase elseBranch]
  | .call _ _ _ => simp only [Stmt.erase, Stmt.render, Expr.render, Expr.render_erase, renderArgs_erase]
  | .block lines => simp only [Stmt.erase, Stmt.render, renderLines_erase lines]

theorem renderElse_erase (branch : Option Stmt) : renderElse (eraseElse branch) = renderElse branch := by
  match branch with
  | none => rfl
  | some branch => simp only [eraseElse, renderElse, Stmt.render_erase branch]

theorem renderLines_erase (lines : List Stmt) : renderLines (eraseLines lines) = renderLines lines := by
  match lines with
  | [] => rfl
  | line :: lines => simp only [eraseLines, renderLines, Stmt.render_erase line, renderLines_erase lines]

end

end TypedTree
