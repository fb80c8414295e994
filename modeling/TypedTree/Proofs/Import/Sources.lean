import TypedTree.Import.Link
/-! Linking with programs that come from fixed sources. A run through the cache is a derivation with one
rule for each thing that can happen to an import, so that what holds of all runs is proved rule by rule. -/

namespace TypedTree

/-- Where programs come from when reading them changes nothing. -/
structure Sources (ε π : Type) where
  read : π → String → Except ε (Program × π)
  ofError : Error → ε
  within : String → ε → ε
  exhausted : ε

namespace ImportCache

theorem stopLoading_startLoading (cache : ImportCache) {path : String} (free : path ∉ cache.loading) :
    (cache.startLoading path).stopLoading path = cache := by
  have kept : cache.loading.filter (· ≠ path) = cache.loading := by
    rw [List.filter_eq_self]
    intro other member
    exact decide_eq_true fun same => free (same ▸ member)
  simp only [startLoading, stopLoading, List.filter_cons, ne_eq, not_true_eq_false, decide_false,
    Bool.false_eq_true, if_false]
  rw [kept]

def enter (cache : ImportCache) (path : String) (program : Program) (imports : List Import) :
    Module × ImportCache :=
  (cache.stopLoading path).insert path { program with imports }

end ImportCache

namespace Sources

variable {ε π : Type} (sources : Sources ε π)

def provider : Provider Id ε π where
  resolves _ _ := true
  load place path cache := (sources.read place path, cache)
  ofError := sources.ofError
  within := sources.within
  exhausted := sources.exhausted

def resolve (depth : Nat) (place : π) (path : String) (cache : ImportCache) :
    Except ε Module × ImportCache :=
  (sources.provider.resolveLinked depth place path cache : Id _).run

def link (depth : Nat) (place : π) (imports : List Import) (cache : ImportCache) :
    Except ε (List Import) × ImportCache :=
  (sources.provider.linkImports (sources.provider.resolveLinked depth place) imports cache : Id _).run

theorem link_cons (depth : Nat) (place : π) (entry : Import) (imports : List Import)
    (cache : ImportCache) :
    sources.link depth place (entry :: imports) cache =
      match sources.resolve depth place entry.path cache with
      | (.error error, cache) => (.error error, cache)
      | (.ok shared, cache) =>
        let rest := sources.link depth place imports cache
        (rest.1.map ({ entry with target := some shared } :: ·), rest.2) := rfl

theorem resolve_succ (depth : Nat) (place : π) (path : String) (cache : ImportCache) :
    sources.resolve (depth + 1) place path cache =
      match cache.get? path with
      | some shared => (.ok shared, cache)
      | none =>
        if path ∈ cache.loading then (.error (sources.ofError (.cyclicImport path)), cache)
        else
          match sources.read place path with
          | .error error =>
            (.error (sources.within path error), (cache.startLoading path).stopLoading path)
          | .ok (program, inner) =>
            match sources.link depth inner program.imports (cache.startLoading path) with
            | (.error error, cache) => (.error (sources.within path error), cache.stopLoading path)
            | (.ok imports, cache) =>
              (.ok (cache.enter path program imports).1, (cache.enter path program imports).2) := by
  unfold resolve
  rw [Provider.resolveLinked, TypedTree.resolve]
  cases cache.get? path with
  | some shared => rfl
  | none =>
    simp only [List.contains_iff_mem]
    split
    · rfl
    · have load : sources.provider.load place path (cache.startLoading path) =
          (sources.read place path, cache.startLoading path) := rfl
      rw [load]
      cases sources.read place path with
      | error error => rfl
      | ok loaded =>
        obtain ⟨program, inner⟩ := loaded
        rcases run : sources.link depth inner program.imports (cache.startLoading path) with ⟨result, after⟩
        have linked := run
        rw [link, Id.run] at linked
        simp only [bind, linked, run]
        cases result <;> rfl

/-- What can happen to a list of imports, one by one. The runs that a relation between a cache before, a
result and a cache behind describes are those of `link`. -/
inductive Links : (depth : Nat) → π → List Import → ImportCache → Except ε (List Import) →
    ImportCache → Prop where
  | done {depth place cache} : Links depth place [] cache (.ok []) cache
  | exhausted {place entry imports cache} :
      Links 0 place (entry :: imports) cache (.error sources.exhausted) cache
  | cached {depth place entry imports cache shared rest after} :
      cache.get? entry.path = some shared → Links (depth + 1) place imports cache rest after →
      Links (depth + 1) place (entry :: imports) cache
        (rest.map ({ entry with target := some shared } :: ·)) after
  | cyclic {depth place entry imports cache} :
      cache.get? entry.path = none → entry.path ∈ cache.loading →
      Links (depth + 1) place (entry :: imports) cache
        (.error (sources.ofError (.cyclicImport entry.path))) cache
  | unread {depth place entry imports cache error} :
      cache.get? entry.path = none → entry.path ∉ cache.loading →
      sources.read place entry.path = .error error →
      Links (depth + 1) place (entry :: imports) cache (.error (sources.within entry.path error)) cache
  | failed {depth place entry imports cache program inner error after} :
      cache.get? entry.path = none → entry.path ∉ cache.loading →
      sources.read place entry.path = .ok (program, inner) →
      Links depth inner program.imports (cache.startLoading entry.path) (.error error) after →
      Links (depth + 1) place (entry :: imports) cache (.error (sources.within entry.path error))
        (after.stopLoading entry.path)
  | loaded {depth place entry imports cache program inner inside between rest after} :
      cache.get? entry.path = none → entry.path ∉ cache.loading →
      sources.read place entry.path = .ok (program, inner) →
      Links depth inner program.imports (cache.startLoading entry.path) (.ok inside) between →
      Links (depth + 1) place imports (between.enter entry.path program inside).2 rest after →
      Links (depth + 1) place (entry :: imports) cache
        (rest.map ({ entry with target := some (between.enter entry.path program inside).1 } :: ·)) after

theorem links_link (depth : Nat) (place : π) (imports : List Import) (cache : ImportCache) :
    sources.Links depth place imports cache (sources.link depth place imports cache).1
      (sources.link depth place imports cache).2 := by
  induction depth generalizing place imports cache with
  | zero =>
    cases imports with
    | nil => exact .done
    | cons entry imports => exact .exhausted
  | succ depth inside =>
    induction imports generalizing cache with
    | nil => exact .done
    | cons entry imports rest =>
      rw [link_cons, resolve_succ]
      cases found : cache.get? entry.path with
      | some shared => exact .cached found (rest cache)
      | none =>
        by_cases busy : entry.path ∈ cache.loading
        · simp only [if_pos busy]
          exact .cyclic found busy
        · simp only [if_neg busy]
          cases read : sources.read place entry.path with
          | error error =>
            simp only [ImportCache.stopLoading_startLoading cache busy]
            exact .unread found busy read
          | ok loaded =>
            obtain ⟨program, inner⟩ := loaded
            have below := inside inner program.imports (cache.startLoading entry.path)
            rcases run : sources.link depth inner program.imports (cache.startLoading entry.path) with
              ⟨result, after⟩
            simp only [run] at below ⊢
            cases result with
            | error error => exact .failed found busy read below
            | ok imports => exact .loaded found busy read below (rest _)

variable {sources} {depth : Nat} {place : π} {imports : List Import} {before after : ImportCache}
  {result : Except ε (List Import)}

theorem Links.link_eq (links : sources.Links depth place imports before result after) :
    sources.link depth place imports before = (result, after) := by
  induction links with
  | done => rfl
  | exhausted => rfl
  | cached found _ rest => simp only [link_cons, resolve_succ, found, rest]
  | cyclic found busy => simp only [link_cons, resolve_succ, found, if_pos busy]
  | unread found busy read =>
    simp only [link_cons, resolve_succ, found, if_neg busy, read,
      ImportCache.stopLoading_startLoading _ busy]
  | failed found busy read _ below =>
    simp only [link_cons, resolve_succ, found, if_neg busy, read, below]
  | loaded found busy read _ _ below rest =>
    simp only [link_cons, resolve_succ, found, if_neg busy, read, below, rest]

/-- The relation describes the runs and nothing else. -/
theorem link_eq_iff : sources.link depth place imports before = (result, after) ↔
    sources.Links depth place imports before result after := by
  constructor
  · intro run
    have links := sources.links_link depth place imports before
    rw [run] at links
    exact links
  · exact Links.link_eq

theorem resolve_eq_iff {path : String} {shared : Except ε Module} :
    sources.resolve depth place path before = (shared, after) ↔
      sources.Links depth place [{ path }] before
        (shared.map fun shared => [{ path, target := some shared }]) after := by
  rw [← link_eq_iff, link_cons]
  rcases sources.resolve depth place path before with ⟨found, between⟩
  have done : sources.link depth place [] between = (.ok [], between) := rfl
  cases found <;> cases shared <;> simp [done, Except.map]

end Sources

end TypedTree
