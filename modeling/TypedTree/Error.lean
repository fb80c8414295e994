import TypedTree.Ty
/-! Everything that can be wrong with a program tree, and how it is reported. -/

namespace TypedTree

/-- What a check of a function body can object to. A `statement` is the rendering of the node the
objection is about. -/
inductive Problem where
  | duplicateVariable (name : String)
  | missingVariable (name : String)
  | typeMismatch (statement : String) (expected found : Ty)
  | typeNotIndexable (statement : String)
  | typeNotIndexer (statement : String)
  | notAMethod (statement : String)
  | objectTypeMissing (statement : String)
  | propertyMissing (statement : String)
  | tooManyArguments (statement : String)
  | ifNeedsBool (statement : String)
  | notAddressable (statement : String)
deriving DecidableEq

inductive Error where
  | config (reason : String)
  | undeclaredType (name : String)
  | unresolvedImport (path : String)
  | cyclicImport (path : String)
  /-- A node stands where a node of another sort belongs. -/
  | malformed (reason : String)
  | semantic (problem : Problem)
deriving DecidableEq

namespace Problem

def message : Problem → String
  | duplicateVariable name => "Variable " ++ name ++ " is declared twice"
  | missingVariable name => "Variable " ++ name ++ " is not declared"
  | typeMismatch statement expected found =>
    "Type mismatch on: " ++ statement ++ " between " ++ expected.render ++ " and " ++ found.render
  | typeNotIndexable statement => "Type not indexable on: " ++ statement
  | typeNotIndexer statement => "Type not an indexer on: " ++ statement
  | notAMethod statement => "Type not a method on: " ++ statement
  | objectTypeMissing statement => "Property missing type declaration on: " ++ statement
  | propertyMissing statement => "Property missing from object on: " ++ statement
  | tooManyArguments statement => "Too many arguments in function call on: " ++ statement
  | ifNeedsBool statement => "If statement needs a bool on: " ++ statement
  | notAddressable statement => "Expression is not addressable: " ++ statement

def code : Problem → String
  | duplicateVariable .. => "mlang::semantic::duplicate"
  | missingVariable .. => "mlang::semantic::missing"
  | typeMismatch .. => "mlang::semantic::type_mismatch"
  | typeNotIndexable .. => "mlang::semantic::not_indexable"
  | typeNotIndexer .. => "mlang::semantic::not_an_indexer"
  | notAMethod .. => "mlang::semantic::not_a_method"
  | objectTypeMissing .. => "mlang::semantic::object_type_missing"
  | propertyMissing .. => "mlang::semantic::property_missing"
  | tooManyArguments .. => "mlang::semantic::too_many_arguments"
  | ifNeedsBool .. => "mlang::semantic::if_needs_bool"
  | notAddressable .. => "mlang::semantic::not_addressable"

def help? : Problem → Option String
  | typeNotIndexer .. => some "arrays are indexed with int8, int16, int32, uint8, uint16 or uint32"
  | _ => none

end Problem

theorem bind_eq_ok_iff {ε α β : Type} {first : Except ε α} {next : α → Except ε β} {value : β} :
    first >>= next = .ok value ↔ ∃ middle, first = .ok middle ∧ next middle = .ok value := by
  cases first with
  | error error => exact ⟨fun same => (nomatch same), fun ⟨_, same, _⟩ => (nomatch same)⟩
  | ok middle => exact ⟨fun same => ⟨middle, rfl, same⟩, fun ⟨_, rfl, same⟩ => same⟩

theorem bind_unit_eq_ok_iff {ε β : Type} {first : Except ε Unit} {next : Unit → Except ε β} {value : β} :
    first >>= next = .ok value ↔ first = .ok () ∧ next () = .ok value := by
  rw [bind_eq_ok_iff]
  exact ⟨fun ⟨(), found, rest⟩ => ⟨found, rest⟩, fun ⟨found, rest⟩ => ⟨(), found, rest⟩⟩

theorem mapM_cons_eq_ok_iff {ε α β : Type} {step : α → Except ε β} {value : α} {values : List α}
    {results : List β} :
    (value :: values).mapM step = .ok results ↔
      ∃ first rest, step value = .ok first ∧ values.mapM step = .ok rest ∧ results = first :: rest := by
  rw [List.mapM_cons, bind_eq_ok_iff]
  simp only [bind_eq_ok_iff]
  constructor
  · intro results
    obtain ⟨first, found, rest, others, same⟩ := results
    exact ⟨first, rest, found, others, (Except.ok.inj same).symm⟩
  · intro parts
    obtain ⟨first, rest, found, others, rfl⟩ := parts
    exact ⟨first, found, rest, others, rfl⟩

namespace Error

def message : Error → String
  | config reason => "Configuration error: " ++ reason
  | undeclaredType name => "Type " ++ name ++ " is not declared"
  | unresolvedImport path => "Import \"" ++ path ++ "\" was not resolved before checking"
  | cyclicImport path => "Import \"" ++ path ++ "\" imports itself"
  | malformed reason => "Malformed tree: " ++ reason
  | semantic problem => problem.message

def code? : Error → Option String
  | undeclaredType _ => some "mlang::declaration::undeclared_type"
  | unresolvedImport _ => some "mlang::import::unresolved"
  | cyclicImport _ => some "mlang::import::cyclic"
  | semantic problem => some problem.code
  | config _ | malformed _ => none

def help? : Error → Option String
  | undeclaredType _ => some "declare the object type before the first declaration that uses it"
  | semantic problem => problem.help?
  | config _ | unresolvedImport _ | cyclicImport _ | malformed _ => none

end Error

end TypedTree
