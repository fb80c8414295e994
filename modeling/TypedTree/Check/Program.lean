import TypedTree.Check.DeclaredTypes
import TypedTree.Check.Body
/-! Checking whole programs with everything they import: first the types named in declarations, then
every function body. The first error found ends the check. -/

namespace TypedTree

abbrev CheckedModules := Table Nat Program

def Decl.checkBody (environment : Except Error Environment) : Decl → Except Error Decl
  | .function declaration => do
    let environment ← environment
    let checked := ((Context.ofEnvironment environment).checkFunction declaration).1
    match checked.outcome with
    | .error problem => .error (.semantic problem)
    | .ok () => .ok (.function checked.tree)
  | .object declaration => .ok (.object declaration)

mutual

/-- Checks the bodies of a program, those of its imports first. Without a function to check, imports
that have not been resolved do no harm. -/
def Program.checkBodies : Program → CheckedModules → Except Error (Program × CheckedModules)
  | ⟨imports, decls⟩, done => do
    let (checkedImports, done) ← importsCheckBodies imports done
    let environment := Environment.ofProgram ⟨imports, decls⟩
    let checkedDecls ← decls.mapM (Decl.checkBody environment)
    return (⟨checkedImports, checkedDecls⟩, done)

def importsCheckBodies : List Import → CheckedModules → Except Error (List Import × CheckedModules)
  | [], done => .ok ([], done)
  | entry :: imports, done => do
    let (checked, done) ← Import.checkBodies entry done
    let (rest, done) ← importsCheckBodies imports done
    return (checked :: rest, done)

def Import.checkBodies : Import → CheckedModules → Except Error (Import × CheckedModules)
  | ⟨path, target⟩, done => do
    let (checked, done) ← targetCheckBodies target done
    return (⟨path, checked⟩, done)

def targetCheckBodies : Option Module → CheckedModules → Except Error (Option Module × CheckedModules)
  | none, done => .ok (none, done)
  | some shared, done => do
    let (checked, done) ← Module.checkBodies shared done
    return (some checked, done)

/-- A shared program is checked where it is met first; every other import gets the same result. -/
def Module.checkBodies : Module → CheckedModules → Except Error (Module × CheckedModules)
  | ⟨id, program⟩, done =>
    match done.find? id with
    | some checked => .ok (⟨id, checked⟩, done)
    | none => do
      let (checked, done) ← program.checkBodies done
      return (⟨id, checked⟩, done.insert id checked)

end

def Program.check (program : Program) : Except Error Program := do
  program.checkTypeDeclarations
  let (checked, _) ← program.checkBodies .empty
  return checked

end TypedTree
