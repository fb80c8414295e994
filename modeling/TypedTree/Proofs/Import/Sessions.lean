import TypedTree.Proofs.Import.Binding
/-! Whole sessions with one cache. Loaders ask the cache questions and resolve imports of their own, at any
depth, and every level may fail. Whatever they do, the cache stays coherent. -/

namespace TypedTree

variable {ε : Type}

/-- What a loader does with the cache it is given, question by question. -/
inductive Loader (ε : Type) where
  | fail (error : ε)
  | provide (program : Program)
  | get (path : String) (next : Option Module → Loader ε)
  | contains (path : String) (next : Bool → Loader ε)
  /-- Resolves a path, with a loader of its own in case there is nothing for it in the cache. After an error
  it may fail as well, or go on. -/
  | resolve (path : String) (load : Loader ε) (next : Except ε Module → Loader ε)

/-- The imports of the program that a loader provides are imports it has resolved, itself or before it was
called, and hold what it got for them. -/
def Loader.Faithful : List (String × Module) → Loader ε → Prop
  | _, .fail _ => True
  | resolved, .provide program =>
    ∀ entry ∈ program.imports, ∃ shared, (entry.path, shared) ∈ resolved ∧ entry.target = some shared
  | resolved, .get _ next => ∀ found, (next found).Faithful resolved
  | resolved, .contains _ next => ∀ present, (next present).Faithful resolved
  | resolved, .resolve path load next =>
    load.Faithful resolved ∧ (∀ error, (next (.error error)).Faithful resolved) ∧
      ∀ shared, (next (.ok shared)).Faithful ((path, shared) :: resolved)

/-- What has happened to a cache since it was new or cleared. -/
structure Trace where
  provided : List String := []
  seen : List ImportCache := []

namespace Trace

def see (cache : ImportCache) (trace : Trace) : Trace := { trace with seen := cache :: trace.seen }

def provide (path : String) (trace : Trace) : Trace := { trace with provided := path :: trace.provided }

end Trace

def noting (path : String) (load : Load (StateM Trace) ε Program) : Load (StateM Trace) ε Program :=
  fun cache => do
    match ← load cache with
    | (.error error, cache) => pure (.error error, cache)
    | (.ok program, cache) =>
      modify (Trace.provide path)
      pure (.ok program, cache)

def Loader.run (ofError : Error → ε) : Loader ε → Load (StateM Trace) ε Program
  | .fail error => fun cache => do
    modify (Trace.see cache)
    pure (.error error, cache)
  | .provide program => fun cache => do
    modify (Trace.see cache)
    pure (.ok program, cache)
  | .get path next => fun cache => do
    modify (Trace.see cache)
    (next (cache.get? path)).run ofError cache
  | .contains path next => fun cache => do
    modify (Trace.see cache)
    (next (cache.contains path)).run ofError cache
  | .resolve path load next => fun cache => do
    modify (Trace.see cache)
    let (shared, cache) ← TypedTree.resolve ofError path (noting path (load.run ofError)) cache
    (next shared).run ofError cache

/-- What a client may do with the cache. -/
inductive Operation (ε : Type) where
  | resolve (path : String) (load : Loader ε)
  | get (path : String)
  | contains (path : String)
  | clear

inductive Answer (ε : Type) where
  | resolved (result : Except ε Module)
  | got (found : Option Module)
  | contained (present : Bool)
  | cleared

def Operation.Faithful : Operation ε → Prop
  | .resolve _ load => load.Faithful []
  | .get _ | .contains _ | .clear => True

structure Session where
  cache : ImportCache
  trace : Trace

namespace Session

def opening (cache : ImportCache) : Session := ⟨cache, { seen := [cache] }⟩

def start (nextId : Nat) : Session := opening (.new nextId)

def step (ofError : Error → ε) (session : Session) : Operation ε → Answer ε × Session
  | .resolve path load =>
    let ((result, cache), trace) :=
      TypedTree.resolve ofError path (noting path (load.run ofError)) session.cache session.trace
    (.resolved result, ⟨cache, trace.see cache⟩)
  | .get path => (.got (session.cache.get? path), session)
  | .contains path => (.contained (session.cache.contains path), session)
  | .clear => (.cleared, opening session.cache.clear)

def run (ofError : Error → ε) (session : Session) (operations : List (Operation ε)) : Session :=
  operations.foldl (fun session operation => (session.step ofError operation).2) session

end Session

namespace ImportCache

def KeptIn (earlier later : ImportCache) : Prop :=
  ∀ path shared, earlier.get? path = some shared → later.get? path = some shared

theorem keptIn_enter {cache : ImportCache} {path : String} (absent : cache.get? path = none)
    (program : Program) (imports : List Import) : cache.KeptIn (cache.enter path program imports).2 := by
  intro other shared found
  have different : other ≠ path := by
    intro same
    rw [same, absent] at found
    cases found
  rw [get?_enter, if_neg different]
  exact found

end ImportCache

structure Steady (cache : ImportCache) (trace : Trace) : Prop where
  sound : cache.Sound fun _ _ => True
  provided : ∀ path ∈ trace.provided, cache.get? path ≠ none
  once : trace.provided.Nodup
  calm : ∀ earlier ∈ trace.seen, ∀ path ∈ earlier.loading, earlier.get? path = none
  kept : trace.seen.Pairwise fun later earlier => earlier.KeptIn later
  lasting : ∀ earlier ∈ trace.seen, earlier.KeptIn cache

namespace Steady

variable {cache after : ImportCache} {trace : Trace} {path : String}

theorem see (steady : Steady cache trace) : Steady cache (trace.see cache) where
  sound := steady.sound
  provided := steady.provided
  once := steady.once
  calm := List.forall_mem_cons.mpr ⟨steady.sound.idle, steady.calm⟩
  kept := List.pairwise_cons.mpr ⟨steady.lasting, steady.kept⟩
  lasting := List.forall_mem_cons.mpr ⟨fun _ _ found => found, steady.lasting⟩

theorem of_sound (steady : Steady cache trace) (sound : after.Sound fun _ _ => True)
    (same : ∀ path, after.get? path = cache.get? path) : Steady after trace where
  sound := sound
  provided path member := same path ▸ steady.provided path member
  once := steady.once
  calm := steady.calm
  kept := steady.kept
  lasting earlier member path shared found :=
    (same path).trans (steady.lasting earlier member path shared found)

theorem startLoading (steady : Steady cache trace) (absent : cache.get? path = none) :
    Steady (cache.startLoading path) trace :=
  steady.of_sound (steady.sound.startLoading absent) fun _ => rfl

theorem stopLoading (steady : Steady cache trace) : Steady (cache.stopLoading path) trace :=
  steady.of_sound (steady.sound.stopLoading path) fun _ => rfl

theorem enter {program : Program} (steady : Steady cache trace) (busy : path ∈ cache.loading)
    (binds : ∀ entry ∈ program.imports, cache.Binds entry) :
    Steady (cache.enter path program program.imports).2 (trace.provide path) := by
  have absent := steady.sound.idle path busy
  have grows := ImportCache.keptIn_enter absent program program.imports
  constructor
  case sound => exact steady.sound.enter absent (fun _ => trivial) rfl binds
  case provided =>
    refine List.forall_mem_cons.mpr ⟨?_, ?_⟩
    · rw [ImportCache.get?_enter, if_pos rfl]
      exact Option.some_ne_none _
    · intro other member
      obtain ⟨shared, found⟩ := Option.ne_none_iff_exists'.mp (steady.provided other member)
      rw [grows other shared found]
      exact Option.some_ne_none shared
  case once => exact List.nodup_cons.mpr ⟨fun member => steady.provided path member absent, steady.once⟩
  case calm => exact steady.calm
  case kept => exact steady.kept
  case lasting =>
    exact fun earlier member other shared found =>
      grows other shared (steady.lasting earlier member other shared found)

end Steady

structure Leads {α : Type} (before : ImportCache) (outcome : (Except ε α × ImportCache) × Trace) : Prop where
  grows : before.Grows outcome.1.2
  steady : Steady outcome.1.2 outcome.2

structure LeadsToProgram (before : ImportCache) (outcome : (Except ε Program × ImportCache) × Trace) : Prop
    extends Leads before outcome where
  binds : ∀ program, outcome.1.1 = .ok program → ∀ entry ∈ program.imports, outcome.1.2.Binds entry

structure LeadsToModule (before : ImportCache) (path : String)
    (outcome : (Except ε Module × ImportCache) × Trace) : Prop extends Leads before outcome where
  found : ∀ shared, outcome.1.1 = .ok shared → outcome.1.2.get? path = some shared
  absent : ∀ error, outcome.1.1 = .error error → outcome.1.2.get? path = none

section Steps

variable {ofError : Error → ε} {cache : ImportCache} {trace : Trace} {path : String}

theorem resolve_noting (load : Load (StateM Trace) ε Program) (cache : ImportCache) (trace : Trace) :
    resolve ofError path (noting path load) cache trace =
      match cache.get? path with
      | some shared => ((.ok shared, cache), trace)
      | none =>
        if path ∈ cache.loading then ((.error (ofError (.cyclicImport path)), cache), trace)
        else
          match load (cache.startLoading path) trace with
          | ((.error error, after), traced) => ((.error error, after.stopLoading path), traced)
          | ((.ok program, after), traced) =>
            let entered := after.enter path program program.imports
            ((.ok entered.1, entered.2), traced.provide path) := by
  unfold resolve
  cases cache.get? path with
  | some shared => rfl
  | none =>
    by_cases busy : path ∈ cache.loading
    · simp only [List.contains_iff_mem.mpr busy, if_pos busy]
      rfl
    · have free : cache.loading.contains path = false := by
        rw [Bool.eq_false_iff, ne_eq, List.contains_iff_mem]
        exact busy
      have bound : ∀ {α β : Type} (first : StateM Trace α) (next : α → StateM Trace β),
          (first >>= next) trace = next (first trace).1 (first trace).2 := fun _ _ => rfl
      simp only [free, if_neg busy, noting, Bool.false_eq_true, if_false, bound]
      rcases load (cache.startLoading path) trace with ⟨⟨result, after⟩, traced⟩
      rcases result with error | ⟨imports, decls⟩ <;> rfl

theorem resolve_leads {load : Load (StateM Trace) ε Program} (steady : Steady cache trace)
    (loads : cache.get? path = none →
      LeadsToProgram (cache.startLoading path) (load (cache.startLoading path) trace)) :
    LeadsToModule cache path (resolve ofError path (noting path load) cache trace) := by
  rw [resolve_noting]
  cases cached : cache.get? path with
  | some shared =>
    refine ⟨⟨.refl cache, steady⟩, ?_, nofun⟩
    intro other same
    cases same
    exact cached
  | none =>
    by_cases busy : path ∈ cache.loading
    · simp only [if_pos busy]
      exact ⟨⟨.refl cache, steady⟩, nofun, fun _ _ => cached⟩
    · simp only [if_neg busy]
      have inside := loads cached
      rcases loaded : load (cache.startLoading path) trace with ⟨⟨result, after⟩, traced⟩
      rw [loaded] at inside
      have loading : path ∈ after.loading := by
        rw [inside.grows.loading]
        exact List.mem_cons_self
      have stopped := inside.grows.stopLoading busy
      cases result with
      | error error =>
        refine ⟨⟨stopped, inside.steady.stopLoading⟩, nofun, ?_⟩
        exact fun _ _ => inside.steady.sound.idle path loading
      | ok program =>
        refine ⟨⟨stopped.enter cached, inside.steady.enter loading (inside.binds program rfl)⟩, ?_, nofun⟩
        intro shared same
        cases same
        exact ImportCache.get?_insert_self _ _ _

theorem LeadsToProgram.after {between : ImportCache} {outcome : (Except ε Program × ImportCache) × Trace}
    (first : cache.Grows between) (rest : LeadsToProgram between outcome) : LeadsToProgram cache outcome :=
  ⟨⟨first.trans rest.grows, rest.steady⟩, rest.binds⟩

theorem Loader.run_resolve (load : Loader ε) (next : Except ε Module → Loader ε) :
    (Loader.resolve path load next).run ofError cache trace =
      let outcome := TypedTree.resolve ofError path (noting path (load.run ofError)) cache (trace.see cache)
      (next outcome.1.1).run ofError outcome.1.2 outcome.2 := rfl

/-- A faithful loader leaves the cache in order, however deep it resolves imports and wherever it fails. -/
theorem Loader.run_leads {loader : Loader ε} {resolved : List (String × Module)}
    (faithful : loader.Faithful resolved) (steady : Steady cache trace)
    (held : ∀ path shared, (path, shared) ∈ resolved → cache.get? path = some shared) :
    LeadsToProgram cache (loader.run ofError cache trace) := by
  induction loader generalizing cache trace resolved with
  | fail error => exact ⟨⟨.refl cache, steady.see⟩, nofun⟩
  | provide program =>
    refine ⟨⟨.refl cache, steady.see⟩, ?_⟩
    intro other same entry member
    cases same
    obtain ⟨shared, before, target⟩ := faithful entry member
    exact ⟨shared, held entry.path shared before, target⟩
  | get path next ih => exact ih _ (faithful _) steady.see held
  | contains path next ih => exact ih _ (faithful _) steady.see held
  | resolve path load next loadLeads nextLeads =>
    obtain ⟨loadFaithful, faithfulAfterError, faithfulAfterModule⟩ := faithful
    have outcome : LeadsToModule cache path
        (TypedTree.resolve ofError path (noting path (load.run ofError)) cache (trace.see cache)) :=
      resolve_leads steady.see fun absent => loadLeads loadFaithful (steady.see.startLoading absent) held
    rcases run : TypedTree.resolve ofError path (noting path (load.run ofError)) cache (trace.see cache) with
      ⟨⟨result, between⟩, traced⟩
    rw [run] at outcome
    rw [Loader.run_resolve, run]
    have still : ∀ path shared, (path, shared) ∈ resolved → between.get? path = some shared :=
      fun path shared member => outcome.grows.kept path shared (held path shared member)
    cases result with
    | error error => exact .after outcome.grows (nextLeads _ (faithfulAfterError error) outcome.steady still)
    | ok shared =>
      refine .after outcome.grows (nextLeads _ (faithfulAfterModule shared) outcome.steady ?_)
      intro other found member
      rcases List.mem_cons.mp member with same | earlier
      · cases same
        exact outcome.found shared rfl
      · exact still other found earlier

end Steps

namespace Session

/-- What holds of a session after each of its operations. -/
structure Coherent (session : Session) : Prop where
  idle : session.cache.loading = []
  system : ∃ id, session.cache.get? ImportCache.systemPath = some ⟨id, .system⟩
  apart : ∀ path other shared found, session.cache.get? path = some shared →
    session.cache.get? other = some found → shared.id = found.id → path = other
  bound : ∀ path shared, session.cache.get? path = some shared →
    ∀ entry ∈ shared.program.imports, session.cache.Binds entry
  once : session.trace.provided.Nodup
  calm : ∀ cache ∈ session.trace.seen, ∀ path, path ∈ cache.loading → cache.get? path = none
  kept : session.trace.seen.Pairwise fun later earlier => earlier.KeptIn later
  latest : session.trace.seen.head? = some session.cache

/-- What an operation does to the cache: nothing that it holds is replaced, unless all of it is dropped, and
a path that could not be resolved is not in it. -/
structure Careful (ofError : Error → ε) (session : Session) (operation : Operation ε) : Prop where
  kept : operation ≠ .clear → session.cache.KeptIn (session.step ofError operation).2.cache
  failed : ∀ path load error, operation = .resolve path load →
    (session.step ofError operation).1 = .resolved (.error error) →
      (session.step ofError operation).2.cache.get? path = none

structure Resting (session : Session) : Prop where
  idle : session.cache.loading = []
  steady : Steady session.cache session.trace
  latest : session.trace.seen.head? = some session.cache

theorem Resting.coherent {session : Session} (resting : session.Resting) : session.Coherent where
  idle := resting.idle
  system := resting.steady.sound.system
  apart := resting.steady.sound.apart
  bound _ _ found := resting.steady.sound.binds_below found
  once := resting.steady.once
  calm := resting.steady.calm
  kept := resting.steady.kept
  latest := resting.latest

theorem resting_start (nextId : Nat) : (start nextId).Resting where
  idle := rfl
  steady := by
    have new : Steady (.new nextId) {} := {
      sound := ImportCache.sound_new _ nextId
      provided := nofun
      once := .nil
      calm := nofun
      kept := .nil
      lasting := nofun }
    exact new.see
  latest := rfl

variable {ofError : Error → ε} {session : Session} {operation : Operation ε}

theorem Resting.step (ofError : Error → ε) (resting : session.Resting) (faithful : operation.Faithful) :
    (session.step ofError operation).2.Resting ∧ session.Careful ofError operation := by
  cases operation with
  | resolve path load =>
    have outcome : LeadsToModule session.cache path
        (TypedTree.resolve ofError path (noting path (load.run ofError)) session.cache session.trace) :=
      resolve_leads resting.steady fun absent =>
        Loader.run_leads faithful (resting.steady.startLoading absent) nofun
    refine ⟨⟨outcome.grows.loading.trans resting.idle, outcome.steady.see, rfl⟩, ?_, ?_⟩
    · exact fun _ => outcome.grows.kept
    · intro other otherLoad error same failed
      cases same
      exact outcome.absent error (Answer.resolved.inj failed)
  | get path | contains path => exact ⟨resting, fun _ _ _ found => found, nofun⟩
  | clear => exact ⟨resting_start session.cache.nextId, fun other => absurd rfl other, nofun⟩

theorem Resting.run {operations : List (Operation ε)} (resting : session.Resting)
    (faithful : ∀ operation ∈ operations, operation.Faithful) : (session.run ofError operations).Resting := by
  induction operations generalizing session with
  | nil => exact resting
  | cons operation operations ih =>
    rw [List.forall_mem_cons] at faithful
    exact ih (resting.step ofError faithful.left).left faithful.right

/-- The cache is coherent after every operation of a session, and every further operation is careful. -/
theorem coherent_run {operations : List (Operation ε)} {operation : Operation ε}
    (faithful : ∀ operation ∈ operations, operation.Faithful) (next : operation.Faithful) (nextId : Nat) :
    let session := (start nextId).run ofError operations
    session.Coherent ∧ session.Careful ofError operation ∧ (session.step ofError operation).2.Coherent := by
  intro session
  have resting : session.Resting := (resting_start nextId).run faithful
  have ⟨restingAfter, careful⟩ := resting.step ofError next
  exact ⟨resting.coherent, careful, restingAfter.coherent⟩

/-- After a program that imports another one has been loaded, a program that imports itself is refused. -/
theorem coherent_run_refused :
    let chain : Loader Error := .resolve "inner" (.provide {}) fun
      | .ok shared => .provide { imports := [⟨"inner", some shared⟩] }
      | .error error => .fail error
    let loop : Loader Error := .resolve "loop" (.provide {}) fun
      | .ok shared => .provide { imports := [⟨"loop", some shared⟩] }
      | .error error => .fail error
    let operations : List (Operation Error) := [.resolve "outer" chain, .get "inner"]
    let refused : Operation Error := .resolve "loop" loop
    let session := (start 0).run id operations
    (∀ operation ∈ operations, operation.Faithful) ∧ refused.Faithful ∧
      (session.step id refused).1 = .resolved (.error (.cyclicImport "loop")) ∧ session.Coherent ∧
        session.Careful id refused ∧ (session.step id refused).2.Coherent := by
  intro chain loop operations refused session
  have faithful : ∀ operation ∈ operations, operation.Faithful := by
    refine List.forall_mem_cons.mpr ⟨⟨nofun, fun error => trivial, ?_⟩, List.forall_mem_singleton.mpr trivial⟩
    exact fun shared => List.forall_mem_singleton.mpr ⟨shared, List.mem_cons_self, rfl⟩
  have next : refused.Faithful := by
    refine ⟨nofun, fun error => trivial, ?_⟩
    exact fun shared => List.forall_mem_singleton.mpr ⟨shared, List.mem_cons_self, rfl⟩
  exact ⟨faithful, next, rfl, coherent_run faithful next 0⟩

end Session

end TypedTree
