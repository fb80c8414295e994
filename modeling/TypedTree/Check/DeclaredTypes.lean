import TypedTree.Tree.Node
/-! Types must be declared before they are named. A tree is read as a list of events, declarations of
names and uses of names, in the order in which a walk meets them: imports before declarations, and a
program that several imports share only at its first import. -/

namespace TypedTree

structure DeclaredTypes where
  names : List String := Ty.builtinNames

inductive TypeEvent where
  | declares (name : String)
  | uses (name : String)
deriving DecidableEq

namespace DeclaredTypes

def contains (declared : DeclaredTypes) (name : String) : Bool := declared.names.contains name

def register (declared : DeclaredTypes) (name : String) : DeclaredTypes :=
  if declared.contains name then declared else { names := declared.names ++ [name] }

def meet (declared : DeclaredTypes) : TypeEvent → Except Error DeclaredTypes
  | .declares name => .ok (declared.register name)
  | .uses name =>
    if declared.contains name then .ok declared else .error (.undeclaredType name)

def meetAll (declared : DeclaredTypes) (events : List TypeEvent) : Except Error DeclaredTypes :=
  events.foldlM meet declared

theorem contains_register (declared : DeclaredTypes) (name other : String) :
    (declared.register name).contains other = (other == name || declared.contains other) := by
  unfold register
  split
  next known =>
    by_cases same : other = name
    · subst same
      rw [known, Bool.or_true]
    · simp [same]
  next =>
    rw [Bool.eq_iff_iff]
    simp [contains, or_comm]

end DeclaredTypes

def Node.typeEvent? : Node → Option TypeEvent
  | .decl (.object declaration) => some (.declares declaration.name)
  | .decl (.function declaration) => some (.uses declaration.returns.name)
  | .parameter named | .property named => some (.uses named.type.name)
  | .stmt (.declare _ type _) => some (.uses type.name)
  | .stmt _ | .expr _ | .importEntry _ | .program _ => none

def DeclaredTypes.meetNode (declared : DeclaredTypes) (node : Node) : Except Error DeclaredTypes :=
  match node.typeEvent? with
  | none => .ok declared
  | some event => declared.meet event

mutual

def Stmt.typeEvents : Stmt → List TypeEvent
  | .declare _ type _ => [.uses type.name]
  | .assign .. | .call .. => []
  | .branch _ thenBranch elseBranch => thenBranch.typeEvents ++ elseTypeEvents elseBranch
  | .block lines => linesTypeEvents lines

def elseTypeEvents : Option Stmt → List TypeEvent
  | none => []
  | some branch => branch.typeEvents

def linesTypeEvents : List Stmt → List TypeEvent
  | [] => []
  | line :: lines => line.typeEvents ++ linesTypeEvents lines

end

/-- A function uses its return type, then its parameter types, then those of its variables; an object
declares its name before it uses its property types. -/
def Decl.typeEvents : Decl → List TypeEvent
  | .function declaration =>
    .uses declaration.returns.name ::
      (declaration.params.map fun parameter => TypeEvent.uses parameter.type.name) ++
      linesTypeEvents declaration.body
  | .object declaration =>
    .declares declaration.name ::
      declaration.properties.map fun property => TypeEvent.uses property.type.name

mutual

/-- The events of a program, and the shared programs met so far, given those met before. -/
def Program.typeEvents : Program → (met : List Nat) → List TypeEvent × List Nat
  | ⟨imports, decls⟩, met =>
    let imported := importsTypeEvents imports met
    (imported.1 ++ decls.flatMap Decl.typeEvents, imported.2)

def importsTypeEvents : List Import → (met : List Nat) → List TypeEvent × List Nat
  | [], met => ([], met)
  | entry :: imports, met =>
    let first := Import.typeEvents entry met
    let rest := importsTypeEvents imports first.2
    (first.1 ++ rest.1, rest.2)

def Import.typeEvents : Import → (met : List Nat) → List TypeEvent × List Nat
  | ⟨_, target⟩, met => targetTypeEvents target met

def targetTypeEvents : Option Module → (met : List Nat) → List TypeEvent × List Nat
  | none, met => ([], met)
  | some shared, met => Module.typeEvents shared met

/-- A shared program has events only where it is met first. -/
def Module.typeEvents : Module → (met : List Nat) → List TypeEvent × List Nat
  | ⟨id, program⟩, met =>
    if met.contains id then ([], met)
    else
      let inside := program.typeEvents met
      (inside.1, id :: inside.2)

end

/-- Checks that every type named in a program, or in a program it imports, is declared before. -/
def Program.checkTypeDeclarations (program : Program) : Except Error Unit := do
  let _ ← DeclaredTypes.meetAll {} (program.typeEvents []).1
  return ()

end TypedTree
