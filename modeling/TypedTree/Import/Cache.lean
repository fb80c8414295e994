import TypedTree.Tree
import TypedTree.Table
import TypedTree.Error
/-! The cache through which imports are resolved, so that all imports of one path share one program.
A path that is requested again while its program is still being loaded is an import cycle. -/

namespace TypedTree

structure ImportCache where
  modules : Table String Module := .empty
  loading : List String := []
  nextId : Nat

namespace ImportCache

/-- The path under which every cache holds the program `Program.system`. -/
def systemPath : String := "system"

def get? (cache : ImportCache) (path : String) : Option Module := cache.modules.find? path

def contains (cache : ImportCache) (path : String) : Bool := cache.modules.contains path

def size (cache : ImportCache) : Nat := cache.modules.size

def insert (cache : ImportCache) (path : String) (program : Program) : Module × ImportCache :=
  let shared : Module := ⟨cache.nextId, program⟩
  (shared, { cache with modules := cache.modules.insert path shared, nextId := cache.nextId + 1 })

def new (nextId : Nat) : ImportCache :=
  (({ nextId } : ImportCache).insert systemPath Program.system).2

def clear (cache : ImportCache) : ImportCache := new cache.nextId

def startLoading (cache : ImportCache) (path : String) : ImportCache :=
  { cache with loading := path :: cache.loading }

def stopLoading (cache : ImportCache) (path : String) : ImportCache :=
  { cache with loading := cache.loading.filter (· ≠ path) }

@[simp] theorem get?_insert_self (cache : ImportCache) (path : String) (program : Program) :
    (cache.insert path program).2.get? path = some (cache.insert path program).1 := by
  simp [insert, get?]

theorem get?_insert_of_ne (cache : ImportCache) {path other : String} (program : Program)
    (different : other ≠ path) : (cache.insert path program).2.get? other = cache.get? other := by
  simp [insert, get?, Table.find?_insert_of_ne _ _ different]

@[simp] theorem get?_new (nextId : Nat) :
    (new nextId).get? systemPath = some ⟨nextId, Program.system⟩ := by
  simp [new, insert, get?]

end ImportCache

/-- A step of loading, in the monad of whoever provides the programs. It works on the cache, which
outlives a failure. -/
abbrev Load (m : Type → Type) (ε α : Type) := ImportCache → m (Except ε α × ImportCache)

/-- The shared program of a path: the one in the cache, or the one `load` provides, which then enters
the cache. `ofError` reports an import cycle. -/
def resolve {m : Type → Type} {ε : Type} [Monad m] (ofError : Error → ε) (path : String)
    (load : Load m ε Program) : Load m ε Module := fun cache =>
  match cache.get? path with
  | some shared => pure (.ok shared, cache)
  | none =>
    if cache.loading.contains path then pure (.error (ofError (.cyclicImport path)), cache)
    else do
      let (loaded, cache) ← load (cache.startLoading path)
      let cache := cache.stopLoading path
      match loaded with
      | .error error => pure (.error error, cache)
      | .ok program =>
        let (shared, cache) := cache.insert path program
        pure (.ok shared, cache)

end TypedTree
