import Mathlib.Logic.Relation
import TypedTree.Proofs.Import.Binding
import TypedTree.Proofs.Project.Load
/-! Which file an import gets its program from. A path names a file as seen from the directory of the
importing program, but the cache knows programs by path alone, so an import gets what the first import of
its path named. The two are the same as long as a path names the same program from everywhere. -/

namespace TypedTree

namespace FileTree

open ImportCache (systemPath)

def Names (tree : FileTree) (file path named : String) : Prop :=
  path ≠ systemPath ∧ named = importFile (directoryOf file) path ∧
    ∃ program, tree.programIn file = .ok program ∧ path ∈ program.imports.map Import.path

def Imports (tree : FileTree) (file other : String) : Prop := ∃ path, tree.Names file path other

def Leads (tree : FileTree) : String → String → Prop := Relation.ReflTransGen tree.Imports

/-- A program is the one in a file, whatever its imports hold. -/
def Holds (tree : FileTree) (file : String) (program : Program) : Prop :=
  ∃ source, tree.programIn file = .ok source ∧ program.unresolved = source.unresolved

/-- Every import of a program from a file other than of `system` holds the program in the file it names,
whose imports do so in turn. -/
inductive BoundFrom (tree : FileTree) : (file : String) → Program → Prop where
  | intro {file program}
      (holds : ∀ entry ∈ program.imports, entry.path ≠ systemPath → ∃ shared,
        entry.target = some shared ∧ tree.Holds (importFile (directoryOf file) entry.path) shared.program)
      (inside : ∀ entry ∈ program.imports, entry.path ≠ systemPath → ∀ shared,
        entry.target = some shared →
          BoundFrom tree (importFile (directoryOf file) entry.path) shared.program) :
      BoundFrom tree file program

/-- Wherever a path is imported behind a file, it names files with the same program. -/
def Agrees (tree : FileTree) (entry : String) : Prop :=
  ∀ file other path here there, tree.Leads entry file → tree.Leads entry other →
    tree.Names file path here → tree.Names other path there →
      ∀ program, tree.Holds here program ↔ tree.Holds there program

/-- Wherever a path is imported behind a file, it names one and the same file. -/
def OneFileEach (tree : FileTree) (entry : String) : Prop :=
  ∀ file other path here there, tree.Leads entry file → tree.Leads entry other →
    tree.Names file path here → tree.Names other path there → tree.find here = tree.find there

/-- Behind a file there is one that leads back to itself, under whatever path. -/
def HasCycle (tree : FileTree) (entry : String) : Prop :=
  ∃ file other, tree.Leads entry file ∧ Relation.TransGen tree.Imports file other ∧
    tree.find other = tree.find file

/-- Behind a file, a path is imported again below the file that it names. -/
def Repeats (tree : FileTree) (entry path : String) : Prop :=
  ∃ file named last again, tree.Leads entry file ∧ tree.Names file path named ∧ tree.Leads named last ∧
    tree.Names last path again

variable {tree : FileTree} {entry file directory path named : String} {program source : Program}
  {cache : ImportCache}

theorem Leads.names (leads : tree.Leads entry file) (names : tree.Names file path named) :
    tree.Leads entry named :=
  Relation.ReflTransGen.tail leads ⟨path, names⟩

theorem Holds.iff (holds : tree.Holds file program) {other : Program} :
    tree.Holds file other ↔ other.unresolved = program.unresolved := by
  obtain ⟨source, found, same⟩ := holds
  constructor
  · rintro ⟨again, known, like⟩
    cases found.symm.trans known
    exact like.trans same.symm
  · intro like
    exact ⟨source, found, like.trans same⟩

theorem Holds.names (holds : tree.Holds file program) {taken : Import} (member : taken ∈ program.imports)
    (other : taken.path ≠ systemPath) :
    tree.Names file taken.path (importFile (directoryOf file) taken.path) := by
  obtain ⟨source, found, same⟩ := holds
  refine ⟨other, rfl, source, found, ?_⟩
  rw [← Program.map_path_of_unresolved_eq same]
  exact List.mem_map_of_mem member

theorem Names.taken (names : tree.Names file path named) (holds : tree.Holds file program) :
    ∃ taken ∈ program.imports, taken.path = path ∧ taken.path ≠ systemPath ∧
      named = importFile (directoryOf file) taken.path := by
  obtain ⟨other, rfl, source, found, member⟩ := names
  obtain ⟨again, known, same⟩ := holds
  cases found.symm.trans known
  rw [← Program.map_path_of_unresolved_eq same, List.mem_map] at member
  obtain ⟨taken, member, rfl⟩ := member
  exact ⟨taken, member, rfl, other, rfl⟩

theorem read_eq_ok_iff {inner : String} :
    tree.sources.read directory path = .ok (program, inner) ↔
      tree.programIn (importFile directory path) = .ok program ∧
        directoryOf (importFile directory path) = inner := by
  rw [sources, map_eq_ok_iff]
  constructor
  · rintro ⟨found, known, same⟩
    cases same
    exact ⟨known, rfl⟩
  · rintro ⟨known, rfl⟩
    exact ⟨program, known, rfl⟩

def Asked (tree : FileTree) (entry directory path : String) : Prop :=
  ∃ file program, tree.Leads entry file ∧ directoryOf file = directory ∧
    tree.programIn file = .ok program ∧ path ∈ program.imports.map Import.path

def Origin (tree : FileTree) (entry path : String) (source : Program) : Prop :=
  ∃ file named, tree.Leads entry file ∧ tree.Names file path named ∧ tree.programIn named = .ok source

theorem feeds (tree : FileTree) (entry : String) :
    tree.sources.Feeds (tree.Asked entry) (tree.Origin entry) := by
  intro directory path program inner asked other read
  obtain ⟨file, importer, leads, rfl, found, member⟩ := asked
  obtain ⟨known, rfl⟩ := read_eq_ok_iff.mp read
  have names : tree.Names file path (importFile (directoryOf file) path) :=
    ⟨other, rfl, importer, found, member⟩
  refine ⟨⟨file, _, leads, names, known⟩, ?_⟩
  intro taken inside
  exact ⟨_, program, leads.names names, rfl, known, List.mem_map_of_mem inside⟩

theorem Agrees.boundFrom (agrees : tree.Agrees entry) (sound : cache.Sound (tree.Origin entry))
    (program : Program) : ∀ file, tree.Leads entry file → tree.Holds file program →
      (∀ taken ∈ program.imports, cache.Binds taken) → tree.BoundFrom file program := by
  induction program using Program.importInduction with
  | step imports decls below =>
    intro file leads holds binds
    have held : ∀ taken ∈ imports, taken.path ≠ systemPath → ∃ shared, taken.target = some shared ∧
        tree.Holds (importFile (directoryOf file) taken.path) shared.program := by
      intro taken member other
      obtain ⟨shared, found, target⟩ := binds taken member
      -- The cache got the program from wherever the path was imported first.
      obtain ⟨source, ⟨importer, named, behind, names, known⟩, same⟩ := sound.origin _ _ found other
      have here := holds.names member other
      exact ⟨shared, target, (agrees _ _ _ _ _ behind leads names here _).mp ⟨source, known, same⟩⟩
    refine .intro held ?_
    intro taken member other shared target
    obtain ⟨found, present, same⟩ := binds taken member
    cases same.symm.trans target
    obtain ⟨_, again, holdsInside⟩ := held taken member other
    cases again.symm.trans target
    exact below taken member shared target _ (leads.names (holds.names member other)) holdsInside
      (sound.binds_below present)

theorem BoundFrom.reach (sound : cache.Sound (tree.Origin entry)) (bound : tree.BoundFrom entry program)
    (holds : tree.Holds entry program) (binds : ∀ taken ∈ program.imports, cache.Binds taken)
    (leads : tree.Leads entry file) : ∃ inner, tree.Holds file inner ∧ tree.BoundFrom file inner ∧
      ∀ taken ∈ inner.imports, cache.Binds taken := by
  induction leads with
  | refl => exact ⟨program, holds, bound, binds⟩
  | tail _ imports ahead =>
    obtain ⟨path, names⟩ := imports
    obtain ⟨inner, holdsInner, boundInner, bindsInner⟩ := ahead
    obtain ⟨taken, member, rfl, other, rfl⟩ := names.taken holdsInner
    obtain ⟨held, inside⟩ := boundInner
    obtain ⟨shared, target, holdsShared⟩ := held taken member other
    obtain ⟨found, present, same⟩ := bindsInner taken member
    cases same.symm.trans target
    exact ⟨_, holdsShared, inside taken member other _ target, sound.binds_below present⟩

theorem BoundFrom.agrees (sound : cache.Sound (tree.Origin entry)) (bound : tree.BoundFrom entry program)
    (holds : tree.Holds entry program) (binds : ∀ taken ∈ program.imports, cache.Binds taken) :
    tree.Agrees entry := by
  have held : ∀ file path named, tree.Leads entry file → tree.Names file path named →
      ∃ shared, cache.get? path = some shared ∧ tree.Holds named shared.program := by
    intro file path named leads names
    obtain ⟨inner, holdsInner, boundInner, bindsInner⟩ := bound.reach sound holds binds leads
    obtain ⟨taken, member, rfl, other, rfl⟩ := names.taken holdsInner
    obtain ⟨inside, -⟩ := boundInner
    obtain ⟨shared, target, holdsShared⟩ := inside taken member other
    obtain ⟨found, present, same⟩ := bindsInner taken member
    cases same.symm.trans target
    exact ⟨_, present, holdsShared⟩
  intro file other path here there leads behind names again loaded
  obtain ⟨shared, present, holdsHere⟩ := held file path here leads names
  obtain ⟨found, present', holdsThere⟩ := held other path there behind again
  cases present.symm.trans present'
  rw [holdsHere.iff, holdsThere.iff]

/-- The files being loaded, one path each, on the way from the entry to a file. -/
inductive Loading (tree : FileTree) (entry : String) : (loading : List String) → (file : String) → Prop where
  | start : Loading tree entry [] entry
  | next {loading file path named} : Loading tree entry loading file → tree.Names file path named →
      Loading tree entry (path :: loading) named

theorem Loading.leads {loading : List String} (stack : tree.Loading entry loading file) :
    tree.Leads entry file := by
  induction stack with
  | start => exact .refl
  | next _ names before => exact before.names names

theorem Loading.repeats {loading : List String} (stack : tree.Loading entry loading file)
    (busy : path ∈ loading) (names : tree.Names file path named) : tree.Repeats entry path := by
  have ahead : ∃ earlier named, tree.Leads entry earlier ∧ tree.Names earlier path named ∧
      tree.Leads named file := by
    clear names
    induction stack with
    | start => cases busy
    | next stack names before =>
      rcases List.mem_cons.mp busy with rfl | earlier
      · exact ⟨_, _, stack.leads, names, .refl⟩
      · obtain ⟨first, between, leads, led, behind⟩ := before earlier
        exact ⟨first, between, leads, led, behind.names names⟩
  obtain ⟨earlier, between, leads, led, behind⟩ := ahead
  exact ⟨earlier, between, file, named, leads, led, behind, names⟩

theorem cause_of_programIn_eq_error {failure : Failure} (unread : tree.programIn file = .error failure) :
    failure.cause ≠ .tooManyImports ∧ ∀ error, failure.cause ≠ .importing error := by
  rw [programIn] at unread
  cases readable : tree.readText file with
  | error fault =>
    rw [readable] at unread
    obtain rfl := Except.error.inj unread
    simp only [Failure.ofFault, ne_eq, reduceCtorEq, not_false_eq_true, implies_true, and_self]
  | ok text =>
    rw [readable] at unread
    cases parsed : Program.ofText text with
    | error fault =>
      simp only [parsed] at unread
      obtain rfl := Except.error.inj unread
      simp only [ne_eq, reduceCtorEq, not_false_eq_true, implies_true, and_self]
    | ok program =>
      simp only [parsed, reduceCtorEq] at unread

/-- Why loading what is behind a file comes to a stop. -/
inductive Stops (tree : FileTree) (entry : String) (limit : Nat) : Cause → Prop where
  | cyclic {loading file path named} : tree.Loading entry loading file → path ∈ loading →
      tree.Names file path named → Stops tree entry limit (.importing (.cyclicImport path))
  | unread {loading file path named failure} : tree.Loading entry loading file → tree.Names file path named →
      tree.programIn named = .error failure → Stops tree entry limit failure.cause
  | exhausted {loading file program} : tree.Loading entry loading file → loading.Nodup → loading.length = limit →
      tree.programIn file = .ok program → program.imports ≠ [] → Stops tree entry limit .tooManyImports

variable {depth limit : Nat} {imports : List Import} {before after : ImportCache}
  {result : Except Failure (List Import)} {failure : Failure}

theorem links_stops (links : tree.sources.Links depth directory imports before result after)
    (sound : before.Sound (tree.Origin entry)) (stack : tree.Loading entry before.loading file)
    (distinct : before.loading.Nodup) (room : before.loading.length + depth = limit)
    (here : directory = directoryOf file) (known : tree.programIn file = .ok source)
    (own : ∀ taken ∈ imports, taken.path ∈ source.imports.map Import.path) (failed : result = .error failure) :
    tree.Stops entry limit failure.cause := by
  induction links generalizing file source failure with
  | done => cases failed
  | exhausted =>
    cases failed
    refine .exhausted stack distinct room known fun none => ?_
    have member := own _ List.mem_cons_self
    rw [none] at member
    cases member
  | cached _ _ rest =>
    exact rest sound stack distinct room here known (List.forall_mem_cons.mp own).right (map_eq_error_iff.mp failed)
  | cyclic absent busy =>
    cases failed
    exact .cyclic stack busy ⟨sound.ne_system absent, rfl, source, known, own _ List.mem_cons_self⟩
  | @unread _ _ _ _ _ error absent _ read =>
    subst here
    cases failed
    have stops : tree.Stops entry limit error.cause :=
      .unread stack ⟨sound.ne_system absent, rfl, source, known, own _ List.mem_cons_self⟩ (map_eq_error_iff.mp read)
    exact stops
  | @failed _ _ _ _ _ _ _ error _ absent free read _ inside =>
    subst here
    cases failed
    obtain ⟨found, rfl⟩ := read_eq_ok_iff.mp read
    have names : tree.Names _ _ _ := ⟨sound.ne_system absent, rfl, source, known, own _ List.mem_cons_self⟩
    -- the path is not being loaded yet, so it may go on the stack
    have stops : tree.Stops entry limit error.cause := by
      refine inside (sound.startLoading absent) (stack.next names) (List.nodup_cons.mpr ⟨free, distinct⟩) ?_ rfl found
        (fun _ => List.mem_map_of_mem) rfl
      rw [← room, ImportCache.startLoading, List.length_cons, Nat.add_right_comm, Nat.add_assoc]
    exact stops
  | loaded absent free read links _ _ rest =>
    subst here
    have entered := links.sound_enter (tree.feeds entry) sound absent read
      ⟨file, source, stack.leads, rfl, known, own _ List.mem_cons_self⟩
    have loading := (links.grows_enter absent free).loading
    rw [loading] at rest
    exact rest entered stack distinct room rfl known (List.forall_mem_cons.mp own).right (map_eq_error_iff.mp failed)

theorem Holds.of_find_eq {here there : String} (same : tree.find here = tree.find there)
    (holds : tree.Holds here program) : tree.Holds there program := by
  obtain ⟨source, found, like⟩ := holds
  obtain ⟨text, read, decoded⟩ := programIn_eq_ok_iff.mp found
  have again : tree.readText there = .ok text := by rw [← read, readText, readText, same]
  exact ⟨source, programIn_eq_ok_iff.mpr ⟨text, again, decoded⟩, like⟩

theorem OneFileEach.agrees (each : tree.OneFileEach entry) : tree.Agrees entry := by
  intro file other path here there leads behind names again program
  have same := each file other path here there leads behind names again
  exact ⟨Holds.of_find_eq same, Holds.of_find_eq same.symm⟩

theorem OneFileEach.hasCycle (same : tree.OneFileEach entry) (repeats : tree.Repeats entry path) :
    tree.HasCycle entry := by
  obtain ⟨file, named, last, again, leads, names, behind, more⟩ := repeats
  refine ⟨named, again, leads.names names, .tail' behind ⟨path, more⟩, ?_⟩
  exact same last file path again named ((leads.names names).trans behind) leads more names

/-- A program that is loaded is the one in the file, and every import behind it holds the program in the
file that it names there exactly if paths name the same programs from everywhere. -/
theorem load_bound (loaded : tree.load entry = .ok program) :
    tree.Holds entry program ∧ (tree.BoundFrom entry program ↔ tree.Agrees entry) := by
  rw [load] at loaded
  cases found : tree.programIn entry with
  | error failure =>
    rw [found] at loaded
    cases loaded
  | ok source =>
    rw [found] at loaded
    obtain ⟨linked, run, rfl⟩ := map_eq_ok_iff.mp loaded
    have links := tree.sources.links_link maxImportDepth (directoryOf entry) source.imports (.new 0)
    rw [run] at links
    obtain ⟨sound, linked⟩ := links.binds (tree.feeds entry) (ImportCache.sound_new _ 0) fun taken member =>
      ⟨entry, source, .refl, rfl, found, List.mem_map_of_mem member⟩
    obtain ⟨paths, binds⟩ := linked _ rfl
    have holds : tree.Holds entry { source with imports := _ } :=
      ⟨source, found, Program.unresolved_of_map_path_eq paths⟩
    refine ⟨holds, fun bound => bound.agrees sound holds binds, ?_⟩
    exact fun agrees => agrees.boundFrom sound _ entry .refl holds binds

theorem load_stops (failed : tree.load entry = .error failure) :
    tree.programIn entry = .error failure ∨ tree.Stops entry maxImportDepth failure.cause := by
  rw [load] at failed
  cases found : tree.programIn entry with
  | error failure =>
    rw [found] at failed
    exact .inl failed
  | ok source =>
    rw [found] at failed
    have links := tree.sources.links_link maxImportDepth (directoryOf entry) source.imports (.new 0)
    exact .inr (links_stops links (ImportCache.sound_new _ 0) .start List.nodup_nil (Nat.zero_add _) rfl found
      (fun _ => List.mem_map_of_mem) (map_eq_error_iff.mp failed))

theorem load_repeats (failed : tree.load entry = .error failure)
    (cause : failure.cause = .importing (.cyclicImport path)) : tree.Repeats entry path := by
  rcases load_stops failed with unread | stops
  · exact absurd cause ((cause_of_programIn_eq_error unread).right _)
  · generalize failure.cause = why at stops cause
    cases stops with
    | cyclic stack busy names =>
      cases cause
      exact stack.repeats busy names
    | unread _ _ unread => exact absurd cause ((cause_of_programIn_eq_error unread).right _)
    | exhausted => cases cause

/-- The limit on imports inside each other is met only where that many files import one another in a row, each
under a path of its own, and the last of them imports yet another one. -/
theorem loadProgram_tooManyImports {memory : Memory}
    (failed : ((loadProgram entry : StateM Memory _).run memory).1 = .error failure)
    (cause : failure.cause = .tooManyImports) : ∃ loading file program, memory.tree.Loading entry loading file ∧
      loading.Nodup ∧ loading.length = maxImportDepth ∧ memory.tree.programIn file = .ok program ∧
        program.imports ≠ [] := by
  rw [run_loadProgram] at failed
  rcases load_stops failed with unread | stops
  · exact absurd cause (cause_of_programIn_eq_error unread).left
  · generalize failure.cause = why at stops cause
    cases stops with
    | cyclic => cases cause
    | unread _ _ unread => exact absurd cause (cause_of_programIn_eq_error unread).left
    | exhausted stack distinct many found more => exact ⟨_, _, _, stack, distinct, many, found, more⟩

/-- What loading a file comes to. If it ends well, every import is bound to the file it names exactly if
paths name the same programs from everywhere. If it ends with a cycle, then because a path is imported again
below the file that it names. As long as paths name the same files from everywhere, imports are bound, and
only a cycle of files is reported as one. -/
theorem loadProgram_outcome (memory : Memory) (entry : String) :
    (∀ program, ((loadProgram entry : StateM Memory _).run memory).1 = .ok program →
      memory.tree.Holds entry program ∧ (memory.tree.BoundFrom entry program ↔ memory.tree.Agrees entry) ∧
        (memory.tree.OneFileEach entry → memory.tree.BoundFrom entry program)) ∧
    ∀ failure path, ((loadProgram entry : StateM Memory _).run memory).1 = .error failure →
      failure.cause = .importing (.cyclicImport path) →
        memory.tree.Repeats entry path ∧ (memory.tree.OneFileEach entry → memory.tree.HasCycle entry) := by
  rw [run_loadProgram]
  constructor
  · intro program loaded
    obtain ⟨holds, bound⟩ := load_bound loaded
    exact ⟨holds, bound, fun each => bound.mpr each.agrees⟩
  · intro failure path failed cause
    have repeats := load_repeats failed cause
    exact ⟨repeats, fun each => each.hasCycle repeats⟩

end FileTree

end TypedTree
