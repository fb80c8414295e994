import TypedTree.Tree
/-! The shared programs behind the imports of a tree, each of them once, in the order in which they are
first reached: a program comes before the programs it imports itself. -/

namespace TypedTree

mutual

def Program.reach : Program → (met : List Module) → List Module
  | ⟨imports, _⟩, met => importsReach imports met

def importsReach : List Import → (met : List Module) → List Module
  | [], met => met
  | entry :: imports, met => importsReach imports (Import.reach entry met)

def Import.reach : Import → (met : List Module) → List Module
  | ⟨_, target⟩, met => targetReach target met

def targetReach : Option Module → (met : List Module) → List Module
  | none, met => met
  | some shared, met => Module.reach shared met

def Module.reach : Module → (met : List Module) → List Module
  | ⟨id, program⟩, met =>
    if met.any fun other => other.id = id then met else program.reach (met ++ [⟨id, program⟩])

end

def Module.number? (shared : Module) (met : List Module) : Option Nat :=
  met.findIdx? fun other => other.id = shared.id

end TypedTree
