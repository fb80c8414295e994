import Mathlib.Data.List.Perm.Subperm
import TypedTree.Proofs.Import.Faults
/-! Linking the programs of a table through one cache. A run skips what is in the cache, and still comes
to what a walk comes to that enters every program again: nothing can be wrong behind a program that got
into the cache. -/

namespace TypedTree

/-- Programs in the cache import only such as entered it before, so a walk from one of them never comes
back to a path that was entered later or is being loaded. -/
theorem ImportCache.Sound.faultless {modules : Table String Program} {cache : ImportCache}
    (sound : cache.Sound fun path program => modules.find? path = some program) {chain : List String}
    {path : String} {position : List Nat} {fault : TableFault}
    (wrong : modules.FaultAt chain path position fault) {shared : Module}
    (found : cache.get? path = some shared)
    (later : ∀ other ∈ chain, ∀ inner, cache.get? other = some inner → shared.id < inner.id) : False := by
  induction wrong generalizing shared with
  | cyclic _ busy =>
    have less := later _ busy shared found
    omega
  | absent real _ absent =>
    obtain ⟨program, known, -⟩ := sound.origin _ _ found real
    cases absent.symm.trans known
  | @inside chain path program number other _ _ real _ known taken _ deeper =>
    obtain ⟨source, again, same⟩ := sound.origin _ _ found real
    cases known.symm.trans again
    have paths := Program.map_path_of_unresolved_eq same
    have member := List.mem_of_getElem? taken
    rw [← paths, List.mem_map] at member
    obtain ⟨entry, member, rfl⟩ := member
    obtain ⟨inner, present, -, before⟩ := sound.bound _ _ found entry member
    refine deeper present (List.forall_mem_cons.mpr ⟨?_, ?_⟩)
    · intro outer here
      cases found.symm.trans here
      exact before
    · intro behind entered outer here
      have less := later behind entered outer here
      omega

theorem ImportCache.Sound.faultless_of_loading {modules : Table String Program} {cache : ImportCache}
    (sound : cache.Sound fun path program => modules.find? path = some program) {path : String}
    {shared : Module} (found : cache.get? path = some shared) (position : List Nat) (fault : TableFault) :
    ¬ modules.FaultAt cache.loading path position fault := by
  intro wrong
  apply sound.faultless wrong found
  intro other busy inner present
  cases (sound.idle other busy).symm.trans present

namespace Table

open ImportCache (systemPath)

variable {modules : Table String Program} {depth : Nat} {place : Unit} {imports : List Import}
  {before after : ImportCache} {result : Except TableFault (List Import)} {path : String}
  {program : Program}

theorem mem_keys (found : modules.find? path = some program) : path ∈ modules.keys := by
  obtain ⟨entry, here, rfl⟩ := Option.map_eq_some_iff.mp found
  have same : entry.1 = path := by simpa using List.find?_some here
  rw [keys, List.mem_map]
  exact ⟨entry, List.mem_of_find?_eq_some here, same⟩

theorem feeds (modules : Table String Program) :
    modules.sources.Feeds (fun _ _ => True) fun path program => modules.find? path = some program :=
  fun _ _ _ _ _ _ read => ⟨read_eq_ok_iff.mp read, fun _ _ => trivial⟩

theorem links_reports (links : modules.sources.Links depth place imports before result after)
    (sound : before.Sound fun path program => modules.find? path = some program)
    (finite : result ≠ .error .exhausted) :
    Reports (modules.FaultAmong before.loading (imports.map Import.path)) result := by
  induction links with
  | done => exact fun _ _ => faultAmong_nil
  | exhausted => exact absurd rfl finite
  | cached found _ rest =>
    -- The walk enters the program again where the run does not, but nothing is wrong behind it.
    have others := rest sound (mt map_eq_error_iff.mpr finite)
    exact reports_map_iff.mpr (reports_tail (sound.faultless_of_loading found) others)
  | cyclic absent busy => exact first_head (first_start (.cyclic (sound.ne_system absent) busy))
  | unread absent free read =>
    obtain ⟨missing, rfl⟩ := read_eq_error_iff.mp read
    exact first_head (first_start (.absent (sound.ne_system absent) free missing))
  | failed absent free read _ inside =>
    exact first_head (reports_inside (sound.ne_system absent) free (read_eq_ok_iff.mp read)
      (inside (sound.startLoading absent) finite))
  | @loaded _ _ _ _ _ _ _ _ _ rest _ absent free read links _ inside behind =>
    have clean := reports_inside (sound.ne_system absent) free (read_eq_ok_iff.mp read)
      (inside (sound.startLoading absent) nofun)
    have entered := links.sound_enter modules.feeds sound absent read trivial
    have loading := (links.grows_enter absent free).loading
    have reports := behind entered (mt map_eq_error_iff.mpr finite)
    rw [loading] at reports
    exact reports_map_iff.mpr (reports_tail clean reports)

/-- As paths that are being loaded are different paths of the table, no run goes deeper than there are
paths in it. -/
theorem links_ne_exhausted (links : modules.sources.Links depth place imports before result after)
    (distinct : before.loading.Nodup) (known : before.loading ⊆ modules.keys)
    (deep : modules.size < depth + before.loading.length) : result ≠ .error .exhausted := by
  induction links with
  | done | cyclic => exact nofun
  | exhausted =>
    have bound := (List.subperm_of_subset distinct known).length_le
    rw [keys, List.length_map] at bound
    rw [size] at deep
    omega
  | cached _ _ rest => exact mt map_eq_error_iff.mp (rest distinct known deep)
  | unread _ _ read =>
    obtain ⟨-, rfl⟩ := read_eq_error_iff.mp read
    exact nofun
  | failed absent free read _ inside =>
    have member := mem_keys (read_eq_ok_iff.mp read)
    refine inside (List.nodup_cons.mpr ⟨free, distinct⟩) (List.cons_subset.mpr ⟨member, known⟩) ?_
    simp only [ImportCache.startLoading, List.length_cons]
    omega
  | loaded absent free read links _ _ rest =>
    have loading := (links.grows_enter absent free).loading
    rw [loading] at rest
    exact mt map_eq_error_iff.mp (rest distinct known deep)

theorem links_succ (links : modules.sources.Links depth place imports before result after)
    (finite : result ≠ .error .exhausted) :
    modules.sources.Links (depth + 1) place imports before result after := by
  induction links with
  | done => exact .done
  | exhausted => exact absurd rfl finite
  | cached found _ rest => exact .cached found (rest (mt map_eq_error_iff.mpr finite))
  | cyclic absent busy => exact .cyclic absent busy
  | unread absent free read => exact .unread absent free read
  | failed absent free read _ inside => exact .failed absent free read (inside finite)
  | loaded absent free read _ _ inside rest =>
    exact .loaded absent free read (inside nofun) (rest (mt map_eq_error_iff.mpr finite))

theorem links_deepen (links : modules.sources.Links depth place imports before result after)
    (finite : result ≠ .error .exhausted) {deeper : Nat} (more : depth ≤ deeper) :
    modules.sources.Links deeper place imports before result after := by
  induction more with
  | refl => exact links
  | step _ reached => exact links_succ reached finite

/-- What a path stands for: a program of the table, or the one of `system`, whatever the table holds. -/
def source? (modules : Table String Program) (path : String) : Option Program :=
  if path = systemPath then some .system else modules.find? path

/-- The linked program of a path. Each import in it, however deep, holds the program its path stands
for; that is one shared program for each path, and another one for another path. -/
structure Linked (modules : Table String Program) (path : String) (shared : Module) : Prop where
  source : ∀ entry ∈ importsInside [{ path, target := some shared }], ∃ inner program,
    entry.target = some inner ∧ modules.source? entry.path = some program ∧
      inner.program.unresolved = program.unresolved
  same : ∀ entry ∈ importsInside [{ path, target := some shared }],
    ∀ other ∈ importsInside [{ path, target := some shared }],
      entry.path = other.path → entry.target = other.target
  apart : ∀ entry ∈ importsInside [{ path, target := some shared }],
    ∀ other ∈ importsInside [{ path, target := some shared }],
      ∀ here there, entry.target = some here → other.target = some there →
        here.id = there.id → entry.path = other.path

theorem links_linked {path : String} {shared : Module} {nextId : Nat}
    (links : modules.sources.Links depth place [{ path }] (.new nextId)
      (.ok [{ path, target := some shared }]) after) : modules.Linked path shared := by
  have fresh := ImportCache.sound_new (fun path program => modules.find? path = some program) nextId
  obtain ⟨sound, linked⟩ := links.binds modules.feeds fresh fun _ _ => trivial
  have binds : ∀ entry ∈ importsInside [{ path, target := some shared }], after.Binds entry :=
    @ImportCache.Sound.binds_inside _ _ sound ⟨[{ path, target := some shared }], []⟩ (linked _ rfl).right
  constructor
  case source =>
    intro entry member
    obtain ⟨inner, found, target⟩ := binds entry member
    by_cases seed : entry.path = systemPath
    · obtain ⟨id, kept⟩ := fresh.system
      have system := links.grows.kept _ _ kept
      rw [← seed, found] at system
      cases system
      exact ⟨_, .system, target, if_pos seed, rfl⟩
    · obtain ⟨program, known, like⟩ := sound.origin _ _ found seed
      exact ⟨inner, program, target, by rw [source?, if_neg seed, known], like⟩
  case same =>
    intro entry here other there path
    obtain ⟨inner, found, target⟩ := binds entry here
    obtain ⟨outer, again, held⟩ := binds other there
    rw [path, again] at found
    rw [target, held, found]
  case apart =>
    intro entry here other there inner outer target held ids
    obtain ⟨_, found, own⟩ := binds entry here
    obtain ⟨_, again, others⟩ := binds other there
    cases own.symm.trans target
    cases others.symm.trans held
    exact sound.apart _ _ _ _ found again ids

/-- What becomes of a path of a table that is linked through a fresh cache. Whatever the depth, if it is
more than the table has paths, the run ends the same way: well if and only if all paths in reach are in
the table and none leads back to itself, otherwise with the first fault on a walk from the path. -/
theorem resolve_outcome (modules : Table String Program) (path : String) (nextId : Nat) :
    ∃ outcome : Except TableFault Module,
      (∀ depth, modules.size < depth →
        (modules.sources.resolve depth () path (.new nextId)).1 = outcome) ∧
      ((∃ shared, outcome = .ok shared) ↔ modules.Closed path) ∧
      (∀ fault, outcome = .error fault ↔ First (modules.FaultAt [] path) fault) ∧
      ∀ shared, outcome = .ok shared → modules.Linked path shared := by
  rcases run : modules.sources.resolve (modules.size + 1) () path (.new nextId) with ⟨outcome, after⟩
  have links := Sources.resolve_eq_iff.mp run
  -- the run at one depth stands for all: no run goes deeper than there are paths in the table
  have finite := links_ne_exhausted links List.nodup_nil (List.nil_subset _) (Nat.lt_succ_self _)
  have fresh := ImportCache.sound_new (fun path program => modules.find? path = some program) nextId
  have reports := reports_alone (reports_map_iff.mp (links_reports links fresh finite))
  refine ⟨outcome, ?_, ?_, ?_, ?_⟩
  · intro depth enough
    have deeper := Sources.resolve_eq_iff.mpr (links_deepen links finite enough)
    rw [deeper]
  · rw [closed_iff_faultless]
    constructor
    · intro ended
      obtain ⟨shared, rfl⟩ := ended
      exact reports
    · intro faultless
      match outcome with
      | .ok shared => exact ⟨shared, rfl⟩
      | .error fault =>
        obtain ⟨position, wrong, -⟩ := reports
        exact absurd wrong (faultless position fault)
  · intro fault
    constructor
    · rintro rfl
      exact reports
    · exact reports.unique
  · rintro shared rfl
    exact links_linked links

/-- A cycle that is entered from the side, after a program of it has been met elsewhere on the way. -/
example :
    let modules : Table String Program := ⟨[("main", ⟨[{ path := "leaf" }, { path := "left" }], []⟩),
      ("leaf", {}), ("left", ⟨[{ path := "leaf" }, { path := "right" }], []⟩),
      ("right", ⟨[{ path := "left" }], []⟩)]⟩
    (modules.sources.resolve 5 () "main" (.new 0)).1 = .error (.importing (.cyclicImport "left")) := rfl

end Table

end TypedTree
