import TypedTree.Files.Memory
import TypedTree.Project.Load
import TypedTree.Proofs.Import.Sources
/-! Loading programs from files in memory. Reading leaves the files as they are, so a run of the loader is
a run through the cache with the files as its sources. -/

namespace TypedTree

theorem run_bind_of_run {σ α β : Type} {action : StateM σ α} {state after : σ} {value : α}
    (ran : action.run state = (value, after)) (next : α → StateM σ β) :
    (action >>= next).run state = (next value).run after := by
  rw [StateT.run_bind, ran]
  rfl

namespace Provider

variable {σ ε π : Type} {provider : Provider (StateM σ) ε π} {sources : Sources ε π} {state : σ}

/-- At a state that it leaves alone, a provider resolves every import, with programs from given sources. -/
structure Mirrors (provider : Provider (StateM σ) ε π) (sources : Sources ε π) (state : σ) : Prop where
  resolves : ∀ cache path, provider.resolves cache path = true
  load : ∀ place path cache,
    (provider.load place path cache).run state = ((sources.read place path, cache), state)
  ofError : provider.ofError = sources.ofError
  within : provider.within = sources.within
  exhausted : provider.exhausted = sources.exhausted

theorem Mirrors.linkImports (mirrors : provider.Mirrors sources state) {depth : Nat} {place : π}
    (resolved : ∀ path cache, (provider.resolveLinked depth place path cache).run state =
      (sources.resolve depth place path cache, state)) (imports : List Import) (cache : ImportCache) :
    (provider.linkImports (provider.resolveLinked depth place) imports cache).run state =
      (sources.link depth place imports cache, state) := by
  induction imports generalizing cache with
  | nil => rfl
  | cons entry imports rest =>
    have one := resolved entry.path cache
    rw [Sources.link_cons, Provider.linkImports, if_pos (mirrors.resolves cache entry.path)]
    rcases run : sources.resolve depth place entry.path cache with ⟨result, after⟩
    rw [run] at one
    rw [run_bind_of_run one]
    cases result with
    | error error => rfl
    | ok shared =>
      simp only
      rw [run_bind_of_run (rest after)]
      rfl

theorem Mirrors.resolveLinked (mirrors : provider.Mirrors sources state) (depth : Nat) (place : π)
    (path : String) (cache : ImportCache) :
    (provider.resolveLinked depth place path cache).run state =
      (sources.resolve depth place path cache, state) := by
  induction depth generalizing place path cache with
  | zero =>
    rw [Provider.resolveLinked, mirrors.exhausted]
    rfl
  | succ depth inside =>
    rw [Sources.resolve_succ, Provider.resolveLinked, TypedTree.resolve, mirrors.ofError]
    cases cache.get? path with
    | some shared => rfl
    | none =>
      simp only [List.contains_iff_mem]
      split
      · rfl
      · have load := mirrors.load place path (cache.startLoading path)
        cases read : sources.read place path with
        | error error =>
          rw [read] at load
          rw [bind_assoc, run_bind_of_run load, mirrors.within]
          rfl
        | ok loaded =>
          obtain ⟨program, inner⟩ := loaded
          have below := mirrors.linkImports (inside inner) program.imports (cache.startLoading path)
          rw [read] at load
          rcases run : sources.link depth inner program.imports (cache.startLoading path) with
            ⟨result, after⟩
          rw [run] at below
          rw [bind_assoc, run_bind_of_run load]
          simp only [bind_assoc]
          rw [run_bind_of_run below, run, mirrors.within]
          cases result <;> rfl

end Provider

namespace FileTree

def programIn (tree : FileTree) (file : String) : Except Failure Program :=
  match tree.readText file with
  | .error fault => .error (.ofFault (.read file) fault)
  | .ok source =>
    match Program.ofText source with
    | .error fault => .error ⟨[.parse file], .json fault⟩
    | .ok program => .ok program

theorem programIn_eq_ok_iff {tree : FileTree} {file : String} {program : Program} :
    tree.programIn file = .ok program ↔
      ∃ text, tree.readText file = .ok text ∧ Program.ofText text = .ok program := by
  rw [programIn]
  cases tree.readText file with
  | error fault => simp only [reduceCtorEq, false_and, exists_false]
  | ok text =>
    simp only [Except.ok.injEq, exists_eq_left']
    cases Program.ofText text <;> simp only [reduceCtorEq, Except.ok.injEq]

def sources (tree : FileTree) : Sources Failure String where
  read directory path := (tree.programIn (importFile directory path)).map fun program =>
    (program, directoryOf (importFile directory path))
  ofError error := ⟨[], .importing error⟩
  within path failure := failure.during (.loadImport path)
  exhausted := ⟨[], .tooManyImports⟩

end FileTree

theorem run_readProgram (file : String) (memory : Memory) :
    (readProgram file : StateM Memory _).run memory = (memory.tree.programIn file, memory) := by
  have text : (MonadFiles.readText file : StateM Memory _).run memory = (memory.tree.readText file, memory) :=
    rfl
  rw [readProgram, FileTree.programIn]
  rw [run_bind_of_run text]
  cases memory.tree.readText file with
  | error fault => rfl
  | ok source =>
    simp only
    cases Program.ofText source <;> rfl

theorem fileProvider_mirrors (memory : Memory) :
    (fileProvider : Provider (StateM Memory) Failure String).Mirrors memory.tree.sources memory where
  resolves _ _ := rfl
  load directory path cache := by
    simp only [fileProvider]
    rw [run_bind_of_run (run_readProgram (importFile directory path) memory)]
    rfl
  ofError := rfl
  within := rfl
  exhausted := rfl

def FileTree.load (tree : FileTree) (file : String) : Except Failure Program :=
  match tree.programIn file with
  | .error failure => .error failure
  | .ok program =>
    (tree.sources.link maxImportDepth (directoryOf file) program.imports (.new 0)).1.map fun imports =>
      { program with imports }

theorem run_loadProgram (file : String) (memory : Memory) :
    (loadProgram file : StateM Memory _).run memory = (memory.tree.load file, memory) := by
  rw [loadProgram, run_bind_of_run (run_readProgram file memory), FileTree.load]
  cases memory.tree.programIn file with
  | error failure => rfl
  | ok program =>
    have mirrors := fileProvider_mirrors memory
    have linked := mirrors.linkImports (mirrors.resolveLinked maxImportDepth (directoryOf file))
      program.imports (.new 0)
    simp only [Provider.link, bind_assoc]
    rw [run_bind_of_run linked]
    rfl

end TypedTree
