import TypedTree.Check.Program
import Mathlib.Data.List.Forall2
import Mathlib.Data.List.Nodup
/-! Sharing saves work and changes nothing. A check walks a shared program at its first import only; a
check that walks it at every import, as if each import had a program of its own, gives the same result,
provided that shared programs of one identity are one program. -/

namespace TypedTree

mutual

/-- The shared programs a program imports, directly or not, one for each import. -/
def Program.modules : Program → List Module
  | ⟨imports, _⟩ => importsModules imports

def importsModules : List Import → List Module
  | [] => []
  | entry :: imports => Import.modules entry ++ importsModules imports

def Import.modules : Import → List Module
  | ⟨_, target⟩ => targetModules target

def targetModules : Option Module → List Module
  | none => []
  | some shared => Module.modules shared

def Module.modules : Module → List Module
  | ⟨id, program⟩ => ⟨id, program⟩ :: program.modules

end

/-- Shared programs of one identity are one program. -/
def Coherent (modules : List Module) : Prop :=
  ∀ left ∈ modules, ∀ right ∈ modules, left.id = right.id → left = right

/-- The identities of the shared programs in a tree are truthful. -/
def Program.Coherent (program : Program) : Prop := TypedTree.Coherent program.modules

theorem Program.coherent_of_nodup {program : Program} (distinct : (program.modules.map Module.id).Nodup) :
    program.Coherent :=
  fun _ leftIn _ rightIn same => List.inj_on_of_nodup_map distinct leftIn rightIn same

theorem importsModules_eq_flatMap (imports : List Import) :
    importsModules imports = imports.flatMap Import.modules := by
  induction imports with
  | nil => rfl
  | cons entry imports ih => rw [importsModules, ih, List.flatMap_cons]

theorem Program.modules_sublist {program : Program} {shared : Module} (member : shared ∈ program.modules) :
    (Module.modules shared).Sublist program.modules := by
  induction program using Program.importInduction with
  | step imports decls below =>
    rw [modules, importsModules_eq_flatMap] at member ⊢
    obtain ⟨⟨path, target⟩, entryIn, member⟩ := List.mem_flatMap.mp member
    have outer : (Import.modules ⟨path, target⟩).Sublist (imports.flatMap Import.modules) :=
      List.sublist_flatten_of_mem (List.mem_map_of_mem entryIn)
    match target with
    | none => cases member
    | some ⟨id, program⟩ =>
      apply List.Sublist.trans _ outer
      rcases List.mem_cons.mp member with rfl | deeper
      · exact List.Sublist.refl _
      · exact (below _ entryIn _ rfl deeper).trans (List.sublist_cons_self _ _)

theorem Program.modules_subset {program : Program} {shared : Module} (member : shared ∈ program.modules) :
    shared.program.modules ⊆ program.modules := by
  cases shared
  exact List.Subset.trans (List.subset_cons_self _ _) (modules_sublist member).subset

theorem Program.Coherent.shared {program : Program} (coherent : program.Coherent) {shared : Module}
    (member : shared ∈ program.modules) : shared.program.Coherent :=
  fun left leftIn right rightIn =>
    coherent left (modules_subset member leftIn) right (modules_subset member rightIn)

theorem Module.not_mem_modules (shared : Module) : shared ∉ shared.program.modules := by
  intro below
  cases shared
  exact absurd (Program.modules_sublist below).length_le (Nat.not_succ_le_self _)

mutual

/-- The events of a program when every import has a program of its own. -/
def Program.typeEventsApart : Program → List TypeEvent
  | ⟨imports, decls⟩ => importsTypeEventsApart imports ++ decls.flatMap Decl.typeEvents

def importsTypeEventsApart : List Import → List TypeEvent
  | [] => []
  | entry :: imports => Import.typeEventsApart entry ++ importsTypeEventsApart imports

def Import.typeEventsApart : Import → List TypeEvent
  | ⟨_, target⟩ => targetTypeEventsApart target

def targetTypeEventsApart : Option Module → List TypeEvent
  | none => []
  | some shared => Module.typeEventsApart shared

def Module.typeEventsApart : Module → List TypeEvent
  | ⟨_, program⟩ => program.typeEventsApart

end

mutual

def Program.checkBodiesApart : Program → Except Error Program
  | ⟨imports, decls⟩ => do
    let checkedImports ← importsCheckBodiesApart imports
    let checkedDecls ← decls.mapM (Decl.checkBody (Environment.ofProgram ⟨imports, decls⟩))
    return ⟨checkedImports, checkedDecls⟩

def importsCheckBodiesApart : List Import → Except Error (List Import)
  | [] => .ok []
  | entry :: imports => do
    let checked ← Import.checkBodiesApart entry
    let rest ← importsCheckBodiesApart imports
    return checked :: rest

def Import.checkBodiesApart : Import → Except Error Import
  | ⟨path, target⟩ => do return ⟨path, ← targetCheckBodiesApart target⟩

def targetCheckBodiesApart : Option Module → Except Error (Option Module)
  | none => .ok none
  | some shared => do return some (← Module.checkBodiesApart shared)

def Module.checkBodiesApart : Module → Except Error Module
  | ⟨id, program⟩ => do return ⟨id, ← program.checkBodiesApart⟩

end

def Program.checkApart (program : Program) : Except Error Program := do
  let _ ← DeclaredTypes.meetAll {} program.typeEventsApart
  program.checkBodiesApart

section Lists

variable {ε α β : Type} {step : α → Except ε β} {values : List α} {results : List β}

theorem mapM_eq_ok_iff : values.mapM step = .ok results ↔
    List.Forall₂ (fun value result => step value = .ok result) values results := by
  induction values generalizing results with
  | nil =>
    rw [List.forall₂_nil_left_iff]
    exact ⟨fun ran => (Except.ok.inj ran).symm, fun none => congrArg Except.ok none.symm⟩
  | cons value values ih =>
    rw [mapM_cons_eq_ok_iff, List.forall₂_cons_left_iff]
    simp only [ih]

theorem mem_of_mapM_eq_ok (ran : values.mapM step = .ok results) :
    ∀ result ∈ results, ∃ value ∈ values, step value = .ok result := by
  induction mapM_eq_ok_iff.mp ran with
  | nil => exact nofun
  | cons found others ih =>
    refine List.forall_mem_cons.mpr ⟨⟨_, List.mem_cons_self, found⟩, fun result member => ?_⟩
    obtain ⟨value, inside, found⟩ := ih (mapM_eq_ok_iff.mpr others) result member
    exact ⟨value, List.mem_cons_of_mem _ inside, found⟩

end Lists

theorem Program.checkBodiesApart_eq_ok_iff (imports : List Import) (decls : List Decl)
    (checked : Program) :
    (Program.mk imports decls).checkBodiesApart = .ok checked ↔
      ∃ checkedImports checkedDecls, importsCheckBodiesApart imports = .ok checkedImports ∧
        decls.mapM (Decl.checkBody (Environment.ofProgram ⟨imports, decls⟩)) = .ok checkedDecls ∧
          checked = ⟨checkedImports, checkedDecls⟩ := by
  simp only [checkBodiesApart, bind_eq_ok_iff]
  constructor
  · intro checks
    obtain ⟨checkedImports, importsDone, checkedDecls, declsDone, same⟩ := checks
    exact ⟨checkedImports, checkedDecls, importsDone, declsDone, (Except.ok.inj same).symm⟩
  · intro parts
    obtain ⟨checkedImports, checkedDecls, importsDone, declsDone, rfl⟩ := parts
    exact ⟨checkedImports, importsDone, checkedDecls, declsDone, rfl⟩

theorem importsCheckBodiesApart_cons_eq_ok_iff (entry : Import) (imports checked : List Import) :
    importsCheckBodiesApart (entry :: imports) = .ok checked ↔
      ∃ first rest, Import.checkBodiesApart entry = .ok first ∧
        importsCheckBodiesApart imports = .ok rest ∧ checked = first :: rest := by
  simp only [importsCheckBodiesApart, bind_eq_ok_iff]
  constructor
  · intro checks
    obtain ⟨first, firstDone, rest, restDone, same⟩ := checks
    exact ⟨first, rest, firstDone, restDone, (Except.ok.inj same).symm⟩
  · intro parts
    obtain ⟨first, rest, firstDone, restDone, rfl⟩ := parts
    exact ⟨first, firstDone, rest, restDone, rfl⟩

theorem Import.checkBodiesApart_resolved_eq_ok_iff (path : String) (id : Nat) (program : Program)
    (checked : Import) :
    Import.checkBodiesApart ⟨path, some ⟨id, program⟩⟩ = .ok checked ↔
      ∃ inside, program.checkBodiesApart = .ok inside ∧ checked = ⟨path, some ⟨id, inside⟩⟩ := by
  simp only [Import.checkBodiesApart, targetCheckBodiesApart, Module.checkBodiesApart]
  cases program.checkBodiesApart with
  | error error => exact ⟨fun same => (nomatch same), fun ⟨_, same, _⟩ => (nomatch same)⟩
  | ok inside =>
    exact ⟨fun same => ⟨inside, rfl, (Except.ok.inj same).symm⟩, fun ⟨_, rfl, same⟩ => by rw [same]; rfl⟩

def TypeEvent.name : TypeEvent → String
  | declares name | uses name => name

namespace DeclaredTypes

def Knows (declared : DeclaredTypes) (events : List TypeEvent) : Prop :=
  ∀ event ∈ events, declared.contains event.name = true

theorem contains_register_of_contains {declared : DeclaredTypes} {other : String}
    (known : declared.contains other = true) (name : String) :
    (declared.register name).contains other = true := by
  rw [contains_register, known, Bool.or_true]

theorem meet_ok {declared later : DeclaredTypes} {event : TypeEvent}
    (met : declared.meet event = .ok later) :
    later.contains event.name = true ∧
      ∀ name, declared.contains name = true → later.contains name = true := by
  cases event with
  | declares name =>
    cases met
    refine ⟨?_, fun other known => contains_register_of_contains known name⟩
    simp [TypeEvent.name, contains_register]
  | uses name =>
    simp only [meet] at met
    split at met
    next known =>
      cases met
      exact ⟨known, fun _ other => other⟩
    next => cases met

theorem meetAll_cons (declared : DeclaredTypes) (event : TypeEvent) (events : List TypeEvent) :
    declared.meetAll (event :: events) = declared.meet event >>= fun later => later.meetAll events := by
  simp only [meetAll, List.foldlM_cons]

theorem meetAll_append (declared : DeclaredTypes) (first second : List TypeEvent) :
    declared.meetAll (first ++ second) = declared.meetAll first >>= fun later => later.meetAll second := by
  simp only [meetAll, List.foldlM_append]

/-- Names are never lost, and events that have been met are about names that are declared by then. -/
theorem meetAll_ok {declared later : DeclaredTypes} {events : List TypeEvent}
    (met : declared.meetAll events = .ok later) :
    later.Knows events ∧ ∀ name, declared.contains name = true → later.contains name = true := by
  induction events generalizing declared with
  | nil =>
    cases met
    exact ⟨fun _ member => (nomatch member), fun _ known => known⟩
  | cons event events ih =>
    rw [meetAll_cons, bind_eq_ok_iff] at met
    obtain ⟨middle, first, rest⟩ := met
    obtain ⟨named, kept⟩ := meet_ok first
    obtain ⟨knows, grown⟩ := ih rest
    refine ⟨?_, fun name known => grown name (kept name known)⟩
    intro other member
    rcases List.mem_cons.mp member with rfl | later
    · exact grown _ named
    · exact knows other later

theorem Knows.meetAll {declared : DeclaredTypes} {events : List TypeEvent}
    (knows : declared.Knows events) : declared.meetAll events = .ok declared := by
  induction events with
  | nil => rfl
  | cons event events ih =>
    have named := knows event List.mem_cons_self
    have unchanged : declared.meet event = .ok declared := by
      cases event with
      | declares name => exact congrArg Except.ok (if_pos named)
      | uses name => exact if_pos named
    rw [meetAll_cons, unchanged]
    exact ih fun other member => knows other (List.mem_cons_of_mem event member)

theorem Knows.mono {declared later : DeclaredTypes} {events : List TypeEvent}
    (knows : declared.Knows events)
    (grown : ∀ name, declared.contains name = true → later.contains name = true) :
    later.Knows events :=
  fun event member => grown _ (knows event member)

end DeclaredTypes

section Events

variable (modules : List Module)

def Met (met : List Nat) (declared : DeclaredTypes) : Prop :=
  ∀ shared ∈ modules, shared.id ∈ met → declared.Knows shared.typeEventsApart

/-- A walk that skips shared programs it has met ends like the list of all events. -/
def WalksAs (walk : List Nat → List TypeEvent × List Nat) (events : List TypeEvent) : Prop :=
  ∀ met declared, Met modules met declared →
    declared.meetAll (walk met).1 = declared.meetAll events ∧
      ∀ later, declared.meetAll events = .ok later → Met modules (walk met).2 later

variable {modules}

theorem Met.mono {met : List Nat} {declared later : DeclaredTypes} (known : Met modules met declared)
    (grown : ∀ name, declared.contains name = true → later.contains name = true) :
    Met modules met later :=
  fun shared member seen => (known shared member seen).mono grown

theorem WalksAs.plain (events : List TypeEvent) : WalksAs modules (fun met => (events, met)) events :=
  fun _ _ known => ⟨rfl, fun _ met => known.mono (DeclaredTypes.meetAll_ok met).2⟩

theorem WalksAs.append {first second : List Nat → List TypeEvent × List Nat}
    {firstEvents secondEvents : List TypeEvent} (firstAs : WalksAs modules first firstEvents)
    (secondAs : WalksAs modules second secondEvents) :
    WalksAs modules (fun met => ((first met).1 ++ (second (first met).2).1, (second (first met).2).2))
      (firstEvents ++ secondEvents) := by
  intro met declared known
  obtain ⟨sameFirst, knownFirst⟩ := firstAs met declared known
  simp only [DeclaredTypes.meetAll_append, sameFirst]
  cases reached : declared.meetAll firstEvents with
  | error error => exact ⟨rfl, fun _ same => (nomatch same)⟩
  | ok middle => exact secondAs _ middle (knownFirst middle reached)

mutual

theorem Program.walksAs (coherent : Coherent modules) (program : Program)
    (inside : program.modules ⊆ modules) :
    WalksAs modules program.typeEvents program.typeEventsApart := by
  match program with
  | ⟨imports, decls⟩ =>
    have walked := (importsWalksAs coherent imports inside).append (.plain (decls.flatMap Decl.typeEvents))
    simpa only [Program.typeEvents, Program.typeEventsApart] using walked

theorem importsWalksAs (coherent : Coherent modules) (imports : List Import)
    (inside : importsModules imports ⊆ modules) :
    WalksAs modules (importsTypeEvents imports) (importsTypeEventsApart imports) := by
  match imports with
  | [] => exact .plain []
  | entry :: imports =>
    obtain ⟨first, rest⟩ := List.append_subset.mp inside
    have walked := (Import.walksAs coherent entry first).append (importsWalksAs coherent imports rest)
    simpa only [importsTypeEvents, importsTypeEventsApart] using walked

theorem Import.walksAs (coherent : Coherent modules) (entry : Import)
    (inside : Import.modules entry ⊆ modules) :
    WalksAs modules (Import.typeEvents entry) (Import.typeEventsApart entry) := by
  match entry with
  | ⟨_, target⟩ => exact targetWalksAs coherent target inside

theorem targetWalksAs (coherent : Coherent modules) (target : Option Module)
    (inside : targetModules target ⊆ modules) :
    WalksAs modules (targetTypeEvents target) (targetTypeEventsApart target) := by
  match target with
  | none => exact .plain []
  | some shared => exact Module.walksAs coherent shared inside

/-- Where a shared program is met again, everything in it is declared already. -/
theorem Module.walksAs (coherent : Coherent modules) (shared : Module)
    (inside : Module.modules shared ⊆ modules) :
    WalksAs modules (Module.typeEvents shared) (Module.typeEventsApart shared) := by
  match shared with
  | ⟨id, program⟩ =>
    obtain ⟨member, below⟩ := List.cons_subset.mp inside
    intro met declared known
    simp only [Module.typeEvents, Module.typeEventsApart]
    by_cases seen : met.contains id = true
    · have knows : declared.Knows program.typeEventsApart :=
        known ⟨id, program⟩ member (List.contains_iff_mem.mp seen)
      rw [if_pos seen]
      refine ⟨knows.meetAll.symm, ?_⟩
      intro later reached
      rw [knows.meetAll] at reached
      cases reached
      exact known
    · rw [if_neg seen]
      obtain ⟨same, knownInside⟩ := Program.walksAs coherent program below met declared known
      refine ⟨same, ?_⟩
      intro later reached other otherMember otherSeen
      rcases List.mem_cons.mp otherSeen with sameId | before
      · rw [coherent other otherMember ⟨id, program⟩ member sameId]
        exact (DeclaredTypes.meetAll_ok reached).1
      · exact knownInside later reached other otherMember before

end

end Events

section Bodies

variable (modules : List Module)

def Done (done : CheckedModules) : Prop :=
  ∀ shared ∈ modules, ∀ checked, done.find? shared.id = some checked →
    shared.program.checkBodiesApart = .ok checked

def ChecksAs {α : Type} (run : CheckedModules → Except Error (α × CheckedModules))
    (result : Except Error α) : Prop :=
  ∀ done, Done modules done →
    match result with
    | .error error => run done = .error error
    | .ok value => ∃ later, run done = .ok (value, later) ∧ Done modules later

variable {modules} {α β : Type}

theorem ChecksAs.pure (value : α) :
    ChecksAs modules (fun done => Pure.pure (value, done)) (Pure.pure value) :=
  fun done known => ⟨done, rfl, known⟩

theorem ChecksAs.bind {first : CheckedModules → Except Error (α × CheckedModules)}
    {next : α → CheckedModules → Except Error (β × CheckedModules)} {firstResult : Except Error α}
    {nextResult : α → Except Error β} (firstAs : ChecksAs modules first firstResult)
    (nextAs : ∀ value, ChecksAs modules (next value) (nextResult value)) :
    ChecksAs modules (fun done => do
      let (value, done) ← first done
      next value done) (firstResult >>= nextResult) := by
  intro done known
  have firstDone := firstAs done known
  cases firstResult with
  | error error =>
    simp only at firstDone
    simp only [firstDone]
    rfl
  | ok value =>
    obtain ⟨later, ran, knownLater⟩ := firstDone
    have rest := nextAs value later knownLater
    simp only [ran]
    exact rest

theorem ChecksAs.plain (result : Except Error α) :
    ChecksAs modules (fun done => do return (← result, done)) result := by
  intro done known
  cases result with
  | error error => rfl
  | ok value => exact ⟨done, rfl, known⟩

mutual

theorem Program.checksAs (coherent : Coherent modules) (program : Program)
    (inside : program.modules ⊆ modules) :
    ChecksAs modules program.checkBodies program.checkBodiesApart := by
  match program with
  | ⟨imports, decls⟩ =>
    have checked := (importsChecksAs coherent imports inside).bind fun checkedImports =>
      (ChecksAs.plain (decls.mapM (Decl.checkBody (Environment.ofProgram ⟨imports, decls⟩)))).bind
        fun checkedDecls => .pure (Program.mk checkedImports checkedDecls)
    simpa only [Program.checkBodies, Program.checkBodiesApart, bind_assoc, pure_bind] using checked

theorem importsChecksAs (coherent : Coherent modules) (imports : List Import)
    (inside : importsModules imports ⊆ modules) :
    ChecksAs modules (importsCheckBodies imports) (importsCheckBodiesApart imports) := by
  match imports with
  | [] => exact .pure []
  | entry :: imports =>
    obtain ⟨first, rest⟩ := List.append_subset.mp inside
    exact (Import.checksAs coherent entry first).bind fun checked =>
      (importsChecksAs coherent imports rest).bind fun others => .pure (checked :: others)

theorem Import.checksAs (coherent : Coherent modules) (entry : Import)
    (inside : Import.modules entry ⊆ modules) :
    ChecksAs modules (Import.checkBodies entry) (Import.checkBodiesApart entry) := by
  match entry with
  | ⟨path, target⟩ =>
    exact (targetChecksAs coherent target inside).bind fun checked => .pure (Import.mk path checked)

theorem targetChecksAs (coherent : Coherent modules) (target : Option Module)
    (inside : targetModules target ⊆ modules) :
    ChecksAs modules (targetCheckBodies target) (targetCheckBodiesApart target) := by
  match target with
  | none => exact .pure none
  | some shared =>
    exact (Module.checksAs coherent shared inside).bind fun checked => .pure (some checked)

/-- What the table holds for a shared program is what its check would give again. -/
theorem Module.checksAs (coherent : Coherent modules) (shared : Module)
    (inside : Module.modules shared ⊆ modules) :
    ChecksAs modules (Module.checkBodies shared) (Module.checkBodiesApart shared) := by
  match shared with
  | ⟨id, program⟩ =>
    obtain ⟨member, below⟩ := List.cons_subset.mp inside
    intro done known
    simp only [Module.checkBodies, Module.checkBodiesApart]
    cases found : done.find? id with
    | some checked =>
      rw [known ⟨id, program⟩ member checked found]
      exact ⟨done, rfl, known⟩
    | none =>
      have programDone := Program.checksAs coherent program below done known
      cases result : program.checkBodiesApart with
      | error error =>
        rw [result] at programDone
        simp only [programDone]
        rfl
      | ok checked =>
        rw [result] at programDone
        obtain ⟨later, ran, knownLater⟩ := programDone
        simp only [ran]
        refine ⟨later.insert id checked, rfl, ?_⟩
        intro other otherMember otherChecked
        rw [Table.find?_insert]
        split
        next sameId =>
          intro same
          -- identities are truthful, so that the program looked up is the one that was checked
          rw [coherent other otherMember ⟨id, program⟩ member sameId, ← Option.some.inj same]
          exact result
        next => exact knownLater other otherMember otherChecked

end

end Bodies

/-- Checking a shared program once is as good as checking it for every import: the tree and the error
are the same. -/
theorem Program.check_eq_checkApart {program : Program} (coherent : program.Coherent) :
    program.check = program.checkApart := by
  have events := (program.walksAs coherent (List.Subset.refl _) [] {} fun _ _ seen => (nomatch seen)).1
  have bodies := program.checksAs coherent (List.Subset.refl _) .empty fun _ _ _ found => (nomatch found)
  unfold check checkApart checkTypeDeclarations
  rw [events]
  cases DeclaredTypes.meetAll {} program.typeEventsApart with
  | error error => rfl
  | ok declared =>
    cases result : program.checkBodiesApart with
    | error error =>
      rw [result] at bodies
      simp only at bodies
      simp only [bodies]
      rfl
    | ok checked =>
      rw [result] at bodies
      obtain ⟨later, ran, _⟩ := bodies
      simp only [ran]
      rfl

end TypedTree
