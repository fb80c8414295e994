import TypedTree.Toml
/-! The tables of a TOML document. Headers open tables, and keys with dots make tables on the way; what
may be added to a table later depends on how it came about. -/

namespace TypedTree.Toml

structure Key where
  path : List String
  name : String

structure Assignment where
  key : Key
  value : Toml

inductive Statement where
  | table (key : Key)
  | element (key : Key)
  | assign (assignment : Assignment)

/-- A table comes about by a header of its own, by the header of a table inside it, or by a key with dots. -/
inductive Origin where
  | header
  | implied
  | dotted
deriving DecidableEq

inductive Entry where
  | value (value : Toml)
  | table (origin : Origin) (entries : List (String × Entry))
  | tables (elements : List (List (String × Entry)))

abbrev Entries := List (String × Entry)

namespace Entries

def set (entries : Entries) (name : String) (entry : Entry) : Entries :=
  if entries.any fun other => other.1 = name then
    entries.map fun other => if other.1 = name then (name, entry) else other
  else entries ++ [(name, entry)]

def add? (entries : Entries) (name : String) (entry : Entry) : Option Entries :=
  if (entries.lookup name).isSome then none else some (entries ++ [(name, entry)])

/-- Binds a key with dots. Tables that have a header of their own are closed to such keys, and the table
the key ends in must have come about by such keys. -/
def assignAt : Entries → List String → String → Toml → Option Entries
  | entries, [], name, value => entries.add? name (.value value)
  | entries, step :: path, name, value =>
    match entries.lookup step with
    | none => do return entries ++ [(step, .table .dotted (← assignAt [] path name value))]
    | some (.value _) => none
    | some (.table origin inner) =>
      if origin = .header ∨ (origin = .implied ∧ path.isEmpty) then none
      else do return entries.set step (.table origin (← assignAt inner path name value))
    | some (.tables elements) =>
      if path.isEmpty then none
      else do
        let last ← assignAt (elements.getLastD []) path name value
        return entries.set step (.tables (elements.dropLast ++ [last]))

def assign (entries : Entries) (assignment : Assignment) : Option Entries :=
  entries.assignAt assignment.key.path assignment.key.name assignment.value

/-- Changes the table a header's path leads to, through the last element of every list of tables on
the way. Tables that are missing are implied. -/
def within (change : Entries → Option Entries) : (path : List String) → Entries → Option Entries
  | [], entries => change entries
  | step :: path, entries =>
    match entries.lookup step with
    | none => do return entries ++ [(step, .table .implied (← within change path []))]
    | some (.value _) => none
    | some (.table origin inner) => do
      return entries.set step (.table origin (← within change path inner))
    | some (.tables elements) => do
      let last ← within change path (elements.getLastD [])
      return entries.set step (.tables (elements.dropLast ++ [last]))

def openTable (name : String) (entries : Entries) : Option Entries :=
  match entries.lookup name with
  | none => some (entries ++ [(name, .table .header [])])
  | some (.table .implied inner) => some (entries.set name (.table .header inner))
  | some _ => none

def openElement (name : String) (entries : Entries) : Option Entries :=
  match entries.lookup name with
  | none => some (entries ++ [(name, .tables [[]])])
  | some (.tables elements) => some (entries.set name (.tables (elements ++ [[]])))
  | some _ => none

end Entries

mutual

def Entry.closed : Entry → Toml
  | .value value => value
  | .table _ entries => .table (closed entries)
  | .tables elements => .list (closedElements elements)

def closed : List (String × Entry) → List (String × Toml)
  | [] => []
  | (name, entry) :: entries => (name, entry.closed) :: closed entries

def closedElements : List (List (String × Entry)) → List Toml
  | [] => []
  | entries :: elements => .table (closed entries) :: closedElements elements

end

structure Assembly where
  root : Entries := []
  current : List String := []

def Assembly.step (assembly : Assembly) : Statement → Option Assembly
  | .table key => do
    return ⟨← assembly.root.within (Entries.openTable key.name) key.path, key.path ++ [key.name]⟩
  | .element key => do
    return ⟨← assembly.root.within (Entries.openElement key.name) key.path, key.path ++ [key.name]⟩
  | .assign assignment => do
    return { assembly with
      root := ← assembly.root.within (fun entries => entries.assign assignment) assembly.current }

def assemble (statements : List Statement) : Option (List (String × Toml)) :=
  (statements.foldlM Assembly.step {}).map fun assembly => closed assembly.root

end TypedTree.Toml
