import TypedTree.Proofs.Import.Sources
/-! What the cache holds while imports are linked. Every import of a program in the cache holds the
program that the cache has for its path, and that program entered the cache before. -/

namespace TypedTree

mutual

def Program.importsInside : Program → List Import
  | ⟨imports, _⟩ => importsInside imports

def importsInside : List Import → List Import
  | [] => []
  | entry :: imports => Import.inside entry ++ importsInside imports

def Import.inside : Import → List Import
  | ⟨path, target⟩ => ⟨path, target⟩ :: targetInside target

def targetInside : Option Module → List Import
  | none => []
  | some shared => Module.inside shared

def Module.inside : Module → List Import
  | ⟨_, program⟩ => program.importsInside

end

theorem Program.forall_importsInside {property : Import → Prop} {program : Program}
    (here : ∀ entry ∈ program.imports, property entry)
    (inside : ∀ entry shared, property entry → entry.target = some shared →
      ∀ inner ∈ shared.program.imports, property inner) :
    ∀ entry ∈ program.importsInside, property entry := by
  induction program using Program.importInduction with
  | step imports decls below =>
    rw [importsInside]
    induction imports with
    | nil => exact nofun
    | cons entry imports rest =>
      rw [List.forall_mem_cons] at here below
      rw [TypedTree.importsInside, List.forall_mem_append]
      refine ⟨?_, rest below.right here.right⟩
      obtain ⟨path, target⟩ := entry
      rw [Import.inside, List.forall_mem_cons]
      refine ⟨here.left, ?_⟩
      match target with
      | none => exact nofun
      | some ⟨id, program⟩ => exact below.left ⟨id, program⟩ rfl (inside _ _ here.left rfl)

theorem Program.map_path_of_unresolved_eq {program other : Program}
    (same : program.unresolved = other.unresolved) :
    program.imports.map Import.path = other.imports.map Import.path := by
  have paths := congrArg (fun program => program.imports.map Import.path) same
  simp only [unresolved, List.map_map] at paths
  exact paths

theorem Program.unresolved_of_map_path_eq {program : Program} {imports : List Import}
    (same : imports.map Import.path = program.imports.map Import.path) :
    ({ program with imports } : Program).unresolved = program.unresolved := by
  have bare : ∀ imports : List Import, (imports.map fun entry => ({ path := entry.path } : Import)) =
      (imports.map Import.path).map fun path => { path } := by
    intro imports
    rw [List.map_map]
    rfl
  simp only [unresolved, bare, same]

namespace ImportCache

structure Grows (before after : ImportCache) : Prop where
  loading : after.loading = before.loading
  kept : ∀ path shared, before.get? path = some shared → after.get? path = some shared

theorem Grows.refl (cache : ImportCache) : cache.Grows cache := ⟨rfl, fun _ _ found => found⟩

theorem Grows.trans {before between after : ImportCache} (first : before.Grows between)
    (second : between.Grows after) : before.Grows after :=
  ⟨second.loading.trans first.loading, fun path shared found =>
    second.kept path shared (first.kept path shared found)⟩

theorem Grows.stopLoading {before after : ImportCache} {path : String} (free : path ∉ before.loading)
    (grows : (before.startLoading path).Grows after) : before.Grows (after.stopLoading path) := by
  constructor
  · have same := congrArg ImportCache.loading (before.stopLoading_startLoading free)
    rw [ImportCache.stopLoading, grows.loading]
    exact same
  · exact grows.kept

theorem get?_enter (cache : ImportCache) (path other : String) (program : Program) (imports : List Import) :
    (cache.enter path program imports).2.get? other =
      if other = path then some (cache.enter path program imports).1 else cache.get? other :=
  Table.find?_insert _ _ _ _

theorem Grows.enter {before after : ImportCache} {path : String} {program : Program}
    {imports : List Import} (absent : before.get? path = none) (grows : before.Grows (after.stopLoading path)) :
    before.Grows (after.enter path program imports).2 := by
  refine ⟨grows.loading, ?_⟩
  intro other shared found
  have different : other ≠ path := by
    intro same
    rw [same, absent] at found
    cases found
  rw [get?_enter, if_neg different]
  exact grows.kept other shared found

def Binds (cache : ImportCache) (entry : Import) : Prop :=
  ∃ shared, cache.get? entry.path = some shared ∧ entry.target = some shared

/-- The cache of a run: it has `system`, identities tell programs apart, and every program in it came
from `origin`, with imports that hold programs of the cache that entered it before. -/
structure Sound (origin : String → Program → Prop) (cache : ImportCache) : Prop where
  system : ∃ id, cache.get? systemPath = some ⟨id, .system⟩
  idle : ∀ path ∈ cache.loading, cache.get? path = none
  early : ∀ path shared, cache.get? path = some shared → shared.id < cache.nextId
  apart : ∀ path other shared found, cache.get? path = some shared → cache.get? other = some found →
    shared.id = found.id → path = other
  bound : ∀ path shared, cache.get? path = some shared → ∀ entry ∈ shared.program.imports,
    ∃ inner, cache.get? entry.path = some inner ∧ entry.target = some inner ∧ inner.id < shared.id
  origin : ∀ path shared, cache.get? path = some shared → path ≠ systemPath →
    ∃ program, origin path program ∧ shared.program.unresolved = program.unresolved

variable {origin : String → Program → Prop} {cache : ImportCache}

theorem get?_new_eq_some {nextId : Nat} {path : String} {shared : Module}
    (found : (new nextId).get? path = some shared) :
    path = systemPath ∧ shared = ⟨nextId, .system⟩ := by
  by_cases same : path = systemPath
  · rw [same, get?_new] at found
    exact ⟨same, (Option.some.inj found).symm⟩
  · rw [new, get?_insert_of_ne _ _ same] at found
    cases found

theorem sound_new (origin : String → Program → Prop) (nextId : Nat) : (new nextId).Sound origin where
  system := ⟨nextId, get?_new nextId⟩
  idle := nofun
  early path shared found := by
    obtain ⟨-, rfl⟩ := get?_new_eq_some found
    exact Nat.lt_succ_self nextId
  apart path other shared found here there _ :=
    (get?_new_eq_some here).left.trans (get?_new_eq_some there).left.symm
  bound path shared found := by
    obtain ⟨-, rfl⟩ := get?_new_eq_some found
    exact nofun
  origin path shared found different := absurd (get?_new_eq_some found).left different

theorem Sound.ne_system (sound : cache.Sound origin) {path : String} (absent : cache.get? path = none) :
    path ≠ systemPath := by
  intro same
  obtain ⟨id, found⟩ := sound.system
  rw [← same, absent] at found
  cases found

theorem Sound.startLoading (sound : cache.Sound origin) {path : String} (absent : cache.get? path = none) :
    (cache.startLoading path).Sound origin where
  system := sound.system
  idle := List.forall_mem_cons.mpr ⟨absent, sound.idle⟩
  early := sound.early
  apart := sound.apart
  bound := sound.bound
  origin := sound.origin

theorem Sound.stopLoading (sound : cache.Sound origin) (path : String) :
    (cache.stopLoading path).Sound origin where
  system := sound.system
  idle other member := sound.idle other (List.mem_filter.mp member).left
  early := sound.early
  apart := sound.apart
  bound := sound.bound
  origin := sound.origin

theorem Sound.enter (sound : cache.Sound origin) {path : String} {program : Program}
    {imports : List Import} (absent : cache.get? path = none)
    (from_origin : path ≠ systemPath → origin path program)
    (paths : imports.map Import.path = program.imports.map Import.path)
    (binds : ∀ entry ∈ imports, cache.Binds entry) : (cache.enter path program imports).2.Sound origin := by
  have stopped := sound.stopLoading path
  have present : ∀ other shared, cache.get? other = some shared → other ≠ path := by
    intro other shared found same
    rw [same, absent] at found
    cases found
  have still : ∀ other shared, cache.get? other = some shared →
      (cache.enter path program imports).2.get? other = some shared := by
    intro other shared found
    rw [get?_enter, if_neg (present other shared found)]
    exact found
  have either : ∀ other shared, (cache.enter path program imports).2.get? other = some shared →
      other = path ∧ shared = (cache.enter path program imports).1 ∨ cache.get? other = some shared := by
    intro other shared found
    rw [get?_enter] at found
    by_cases same : other = path
    · rw [if_pos same] at found
      exact .inl ⟨same, (Option.some.inj found).symm⟩
    · rw [if_neg same] at found
      exact .inr found
  constructor
  case system =>
    obtain ⟨id, found⟩ := sound.system
    exact ⟨id, still _ _ found⟩
  case idle =>
    intro other member
    have unequal : other ≠ path := of_decide_eq_true (List.mem_filter.mp member).right
    rw [get?_enter, if_neg unequal]
    exact stopped.idle other member
  case early =>
    intro other shared found
    rcases either other shared found with ⟨-, rfl⟩ | before
    · exact Nat.lt_succ_self _
    · exact Nat.lt_succ_of_lt (sound.early other shared before)
  -- a new program takes the next identity, which nothing in the cache has yet
  case apart =>
    intro first second shared other here there same
    rcases either first shared here with ⟨rfl, rfl⟩ | before
    · rcases either second other there with ⟨rfl, rfl⟩ | behind
      · rfl
      · exact absurd same.symm (Nat.ne_of_lt (sound.early second other behind))
    · rcases either second other there with ⟨rfl, rfl⟩ | behind
      · exact absurd same (Nat.ne_of_lt (sound.early first shared before))
      · exact sound.apart first second shared other before behind same
  case bound =>
    intro other shared found entry member
    rcases either other shared found with ⟨-, rfl⟩ | before
    · obtain ⟨inner, innerFound, target⟩ := binds entry member
      exact ⟨inner, still _ _ innerFound, target, sound.early _ _ innerFound⟩
    · obtain ⟨inner, innerFound, target, earlier⟩ := sound.bound other shared before entry member
      exact ⟨inner, still _ _ innerFound, target, earlier⟩
  case origin =>
    intro other shared found different
    rcases either other shared found with ⟨rfl, rfl⟩ | before
    · exact ⟨program, from_origin different, Program.unresolved_of_map_path_eq paths⟩
    · exact sound.origin other shared before different

/-- What has been loaded for a path may enter the cache: the path is still being loaded, so the cache has
nothing for it. -/
theorem Sound.enter_loaded {before : ImportCache} {path : String} {program : Program}
    {imports : List Import} (sound : cache.Sound origin) (grows : (before.startLoading path).Grows cache)
    (from_origin : path ≠ systemPath → origin path program)
    (paths : imports.map Import.path = program.imports.map Import.path)
    (binds : ∀ entry ∈ imports, cache.Binds entry) : (cache.enter path program imports).2.Sound origin := by
  have busy : path ∈ cache.loading := by
    rw [grows.loading]
    exact List.mem_cons_self
  exact sound.enter (sound.idle path busy) from_origin paths binds

theorem Sound.binds_below (sound : cache.Sound origin) {path : String} {shared : Module}
    (found : cache.get? path = some shared) : ∀ entry ∈ shared.program.imports, cache.Binds entry := by
  intro entry member
  obtain ⟨inner, present, target, -⟩ := sound.bound path shared found entry member
  exact ⟨inner, present, target⟩

theorem Sound.binds_inside (sound : cache.Sound origin) {program : Program}
    (binds : ∀ entry ∈ program.imports, cache.Binds entry) :
    ∀ entry ∈ program.importsInside, cache.Binds entry := by
  apply Program.forall_importsInside binds
  intro entry shared holds target
  obtain ⟨found, present, same⟩ := holds
  cases same.symm.trans target
  exact sound.binds_below present

end ImportCache

theorem map_eq_ok_iff {ε α β : Type} {result : Except ε α} {change : α → β} {value : β} :
    result.map change = .ok value ↔ ∃ before, result = .ok before ∧ change before = value := by
  cases result with
  | error error => exact ⟨nofun, nofun⟩
  | ok before => simp [Except.map]

theorem map_eq_error_iff {ε α β : Type} {result : Except ε α} {change : α → β} {error : ε} :
    result.map change = .error error ↔ result = .error error := by
  cases result with
  | error other => simp [Except.map]
  | ok value => exact ⟨nofun, nofun⟩

namespace Sources

variable {ε π : Type} {sources : Sources ε π} {depth : Nat} {place : π} {imports : List Import}
  {before after : ImportCache} {result : Except ε (List Import)} {origin : String → Program → Prop}

theorem Links.grows (links : sources.Links depth place imports before result after) :
    before.Grows after := by
  induction links with
  | done | exhausted | cyclic | unread => exact .refl _
  | cached _ _ rest => exact rest
  | failed _ free _ _ inside => exact inside.stopLoading free
  | loaded absent free _ _ _ inside rest => exact ((inside.stopLoading free).enter absent).trans rest

def Feeds (sources : Sources ε π) (asks : π → String → Prop) (origin : String → Program → Prop) : Prop :=
  ∀ place path program inner, asks place path → path ≠ ImportCache.systemPath →
    sources.read place path = .ok (program, inner) →
      origin path program ∧ ∀ entry ∈ program.imports, asks inner entry.path

/-- A run keeps the cache sound, and leaves imports with the same paths that hold programs of the
cache. -/
theorem Links.binds {asks : π → String → Prop} (feeds : sources.Feeds asks origin)
    (links : sources.Links depth place imports before result after) (sound : before.Sound origin)
    (asked : ∀ entry ∈ imports, asks place entry.path) :
    after.Sound origin ∧ ∀ linked, result = .ok linked →
      linked.map Import.path = imports.map Import.path ∧ ∀ entry ∈ linked, after.Binds entry := by
  induction links with
  | done => exact ⟨sound, fun linked same => by cases same; exact ⟨rfl, nofun⟩⟩
  | exhausted | cyclic | unread => exact ⟨sound, nofun⟩
  | cached found links rest =>
    obtain ⟨soundAfter, linkedRest⟩ := rest sound (List.forall_mem_cons.mp asked).right
    refine ⟨soundAfter, ?_⟩
    intro linked same
    obtain ⟨others, rfl, rfl⟩ := map_eq_ok_iff.mp same
    obtain ⟨paths, binds⟩ := linkedRest others rfl
    refine ⟨by simp only [List.map_cons, paths], List.forall_mem_cons.mpr ⟨?_, binds⟩⟩
    exact ⟨_, links.grows.kept _ _ found, rfl⟩
  | failed absent free read links inside =>
    have other := sound.ne_system absent
    obtain ⟨-, askedInside⟩ := feeds _ _ _ _ (asked _ List.mem_cons_self) other read
    exact ⟨(inside (sound.startLoading absent) askedInside).left.stopLoading _, nofun⟩
  | @loaded _ _ entry _ _ _ _ _ between _ _ absent free read links restLinks inside rest =>
    have other := sound.ne_system absent
    obtain ⟨fits, askedInside⟩ := feeds _ _ _ _ (asked _ List.mem_cons_self) other read
    obtain ⟨soundBetween, linkedInside⟩ := inside (sound.startLoading absent) askedInside
    obtain ⟨pathsInside, bindsInside⟩ := linkedInside _ rfl
    have entered := soundBetween.enter_loaded links.grows (fun _ => fits) pathsInside bindsInside
    obtain ⟨soundAfter, linkedRest⟩ := rest entered (List.forall_mem_cons.mp asked).right
    refine ⟨soundAfter, ?_⟩
    intro linked same
    obtain ⟨others, rfl, rfl⟩ := map_eq_ok_iff.mp same
    obtain ⟨paths, binds⟩ := linkedRest others rfl
    refine ⟨by simp only [List.map_cons, paths], List.forall_mem_cons.mpr ⟨?_, binds⟩⟩
    refine ⟨_, restLinks.grows.kept _ _ ?_, rfl⟩
    rw [ImportCache.get?_enter, if_pos rfl]

theorem Links.grows_enter {path : String} {program : Program} {inner : π} {inside : List Import}
    (links : sources.Links depth inner program.imports (before.startLoading path) (.ok inside) after)
    (absent : before.get? path = none) (free : path ∉ before.loading) :
    before.Grows (after.enter path program inside).2 :=
  (links.grows.stopLoading free).enter absent

theorem Links.sound_enter {asks : π → String → Prop} (feeds : sources.Feeds asks origin)
    {path : String} {program : Program} {inner : π} {inside : List Import}
    (links : sources.Links depth inner program.imports (before.startLoading path) (.ok inside) after)
    (sound : before.Sound origin) (absent : before.get? path = none)
    (read : sources.read place path = .ok (program, inner)) (asked : asks place path) :
    (after.enter path program inside).2.Sound origin := by
  obtain ⟨fits, askedInside⟩ := feeds _ _ _ _ asked (sound.ne_system absent) read
  obtain ⟨soundAfter, linked⟩ := links.binds feeds (sound.startLoading absent) askedInside
  obtain ⟨paths, binds⟩ := linked _ rfl
  exact soundAfter.enter_loaded links.grows (fun _ => fits) paths binds

end Sources

end TypedTree
