import TypedTree.Table
import TypedTree.Error
/-! The names visible at a point of a function body, kept scope by scope. The outermost scope is always
there; every other scope is dropped with all its names when it is left. -/

namespace TypedTree

/-- Open scopes, the innermost first, inside the outermost one. -/
structure Scopes where
  inner : List (Table String Ty) := []
  outermost : Table String Ty := .empty

namespace Scopes

def empty : Scopes := {}

def enter (scopes : Scopes) : Scopes := { scopes with inner := .empty :: scopes.inner }

def exit (scopes : Scopes) : Scopes := { scopes with inner := scopes.inner.tail }

def stack (scopes : Scopes) : List (Table String Ty) := scopes.inner ++ [scopes.outermost]

def lookup (scopes : Scopes) (name : String) : Option Ty :=
  scopes.stack.findSome? fun scope => scope.find? name

def isDeclared (scopes : Scopes) (name : String) : Bool := (scopes.lookup name).isSome

def insert (scopes : Scopes) (name : String) (type : Ty) : Scopes :=
  match scopes.inner with
  | [] => { scopes with outermost := scopes.outermost.insert name type }
  | scope :: inner => { scopes with inner := scope.insert name type :: inner }

def define (scopes : Scopes) (name : String) (type : Ty) : Except Problem Scopes :=
  if scopes.isDeclared name then .error (.duplicateVariable name) else .ok (scopes.insert name type)

def insertAll (scopes : Scopes) : List (String × Ty) → Scopes
  | [] => scopes
  | (name, type) :: entries => (scopes.insert name type).insertAll entries

@[simp] theorem lookup_enter (scopes : Scopes) (name : String) :
    scopes.enter.lookup name = scopes.lookup name := by
  simp [lookup, stack, enter, List.findSome?_cons]

theorem lookup_insert (scopes : Scopes) (name other : String) (type : Ty) :
    (scopes.insert name type).lookup other = if other = name then some type else scopes.lookup other := by
  obtain ⟨inner, outermost⟩ := scopes
  cases inner with
  | nil =>
    simp only [insert, lookup, stack, List.nil_append, List.findSome?_cons, List.findSome?_nil]
    rw [Table.find?_insert]
    by_cases same : other = name
    · simp [same]
    · simp [same]
  | cons scope rest =>
    simp only [insert, lookup, stack, List.cons_append, List.findSome?_cons]
    rw [Table.find?_insert]
    by_cases same : other = name
    · simp [same]
    · simp [same]

def Within (outer scopes : Scopes) : Prop :=
  ∃ scope, scopes = { outer with inner := scope :: outer.inner }

theorem within_enter (scopes : Scopes) : scopes.Within scopes.enter := ⟨.empty, rfl⟩

theorem Within.insert {outer scopes : Scopes} (within : outer.Within scopes) (name : String) (type : Ty) :
    outer.Within (scopes.insert name type) := by
  obtain ⟨scope, rfl⟩ := within
  exact ⟨scope.insert name type, rfl⟩

theorem Within.exit {outer scopes : Scopes} (within : outer.Within scopes) : scopes.exit = outer := by
  obtain ⟨scope, rfl⟩ := within
  rfl

theorem define_eq_ok_iff (scopes extended : Scopes) (name : String) (type : Ty) :
    scopes.define name type = .ok extended ↔
      scopes.lookup name = none ∧ extended = scopes.insert name type := by
  unfold define isDeclared
  cases scopes.lookup name <;> simp [eq_comm]

end Scopes

end TypedTree
