import TypedTree.Import.Cache
/-! Linking: every import of a program is resolved through one cache, and every program that is loaded
for an import is linked in the same way before it is shared. -/

namespace TypedTree

/-- Where programs come from. A provider works in a monad of its own, and names a place for each
program, which the paths of that program's imports may be relative to. -/
structure Provider (m : Type → Type) (ε π : Type) where
  resolves : ImportCache → String → Bool
  load : π → String → Load m ε (Program × π)
  ofError : Error → ε
  within : String → ε → ε
  exhausted : ε

namespace Provider

variable {m : Type → Type} {ε π : Type} [Monad m]

def linkImports (provider : Provider m ε π) (resolveOne : String → Load m ε Module) :
    List Import → Load m ε (List Import)
  | [], cache => pure (.ok [], cache)
  | entry :: imports, cache =>
    if provider.resolves cache entry.path then do
      match ← resolveOne entry.path cache with
      | (.error error, cache) => pure (.error error, cache)
      | (.ok shared, cache) =>
        let (rest, cache) ← linkImports provider resolveOne imports cache
        pure (rest.map ({ entry with target := some shared } :: ·), cache)
    else do
      let (rest, cache) ← linkImports provider resolveOne imports cache
      pure (rest.map (entry :: ·), cache)

/-- The shared program of a path at a place, linked. Programs may import each other through at most
`depth` others. -/
def resolveLinked (provider : Provider m ε π) : (depth : Nat) → π → String → Load m ε Module
  | 0, _, _ => fun cache => pure (.error provider.exhausted, cache)
  | depth + 1, place, path =>
    resolve provider.ofError path fun cache => do
      match ← provider.load place path cache with
      | (.error error, cache) => pure (.error (provider.within path error), cache)
      | (.ok (program, place), cache) =>
        let (imports, cache) ←
          linkImports provider (resolveLinked provider depth place) program.imports cache
        match imports with
        | .error error => pure (.error (provider.within path error), cache)
        | .ok imports => pure (.ok { program with imports }, cache)

def link (provider : Provider m ε π) (depth : Nat) (place : π) (program : Program) :
    Load m ε Program := fun cache => do
  let (imports, cache) ←
    linkImports provider (resolveLinked provider depth place) program.imports cache
  pure (imports.map fun imports => { program with imports }, cache)

end Provider

end TypedTree
