import TypedTree.Proofs.Check.TypeNames
/-! What a module keeps to itself. Importers see the declarations that a module exports, up to function
bodies, and the names of its objects. Modules that agree on these can be put in each other's place: a check
of an importing program ends the same way and decorates everything outside the module as before. -/

namespace TypedTree

mutual

/-- Puts another program behind every import of a shared program with one of the identities. -/
def Program.exchange (ids : List Nat) (other : Program) : Program → Program
  | ⟨imports, decls⟩ => ⟨importsExchange ids other imports, decls⟩

def importsExchange (ids : List Nat) (other : Program) : List Import → List Import
  | [] => []
  | entry :: imports => Import.exchange ids other entry :: importsExchange ids other imports

def Import.exchange (ids : List Nat) (other : Program) : Import → Import
  | ⟨path, target⟩ => ⟨path, targetExchange ids other target⟩

def targetExchange (ids : List Nat) (other : Program) : Option Module → Option Module
  | none => none
  | some shared => some (Module.exchange ids other shared)

def Module.exchange (ids : List Nat) (other : Program) : Module → Module
  | ⟨id, program⟩ => ⟨id, if id ∈ ids then other else Program.exchange ids other program⟩

end

/-- From outside two programs look alike: they have the same imports, export the same declarations up to
function bodies, and declare objects of the same names. -/
structure Program.AlikeOutside (program other : Program) : Prop where
  imports : other.imports = program.imports
  exported : other.exported.map Decl.emptied = program.exported.map Decl.emptied
  objectNames : ∀ name, name ∈ other.objectNames ↔ name ∈ program.objectNames

section Absent

variable (ids : List Nat) (other : Program)

mutual

theorem Program.exchange_of_absent (program : Program)
    (absent : ∀ inside ∈ program.modules, inside.id ∉ ids) :
    Program.exchange ids other program = program := by
  match program with
  | ⟨imports, decls⟩ => rw [Program.exchange, importsExchange_of_absent imports absent]

theorem importsExchange_of_absent (imports : List Import)
    (absent : ∀ inside ∈ importsModules imports, inside.id ∉ ids) :
    importsExchange ids other imports = imports := by
  match imports with
  | [] => rfl
  | entry :: imports =>
    obtain ⟨first, rest⟩ := List.forall_mem_append.mp absent
    rw [importsExchange, Import.exchange_of_absent entry first, importsExchange_of_absent imports rest]

theorem Import.exchange_of_absent (entry : Import)
    (absent : ∀ inside ∈ Import.modules entry, inside.id ∉ ids) :
    Import.exchange ids other entry = entry := by
  match entry with
  | ⟨path, target⟩ => rw [Import.exchange, targetExchange_of_absent target absent]

theorem targetExchange_of_absent (target : Option Module)
    (absent : ∀ inside ∈ targetModules target, inside.id ∉ ids) :
    targetExchange ids other target = target := by
  match target with
  | none => rfl
  | some shared => rw [targetExchange, Module.exchange_of_absent shared absent]

theorem Module.exchange_of_absent (shared : Module)
    (absent : ∀ inside ∈ Module.modules shared, inside.id ∉ ids) :
    Module.exchange ids other shared = shared := by
  match shared with
  | ⟨id, program⟩ =>
    obtain ⟨differs, below⟩ := List.forall_mem_cons.mp absent
    rw [Module.exchange, if_neg differs, Program.exchange_of_absent program below]

end

theorem Module.id_exchange (shared : Module) : (Module.exchange ids other shared).id = shared.id := by
  cases shared
  rfl

end Absent

namespace DeclaredTypes

def Same (declared other : DeclaredTypes) : Prop := ∀ name, declared.contains name = other.contains name

inductive SameOutcome : Except Error DeclaredTypes → Except Error DeclaredTypes → Prop
  | error (error : Error) : SameOutcome (.error error) (.error error)
  | ok {declared other : DeclaredTypes} (same : declared.Same other) : SameOutcome (.ok declared) (.ok other)

namespace SameOutcome

variable {outcome other : Except Error DeclaredTypes}

theorem bind_eq {α : Type} (same : SameOutcome outcome other) (next : Except Error α) :
    (other >>= fun _ => next) = outcome >>= fun _ => next := by
  cases same <;> rfl

theorem bind {next otherNext : DeclaredTypes → Except Error DeclaredTypes} (same : SameOutcome outcome other)
    (after : ∀ later otherLater, outcome = .ok later → later.Same otherLater →
      SameOutcome (next later) (otherNext otherLater)) :
    SameOutcome (outcome >>= next) (other >>= otherNext) := by
  cases same with
  | error error => exact .error error
  | ok same => exact after _ _ rfl same

end SameOutcome

/-- Wherever the builtin names are known, the one list of events can stand for the other. -/
def Interchange (events others : List TypeEvent) : Prop :=
  ∀ declared other, Within {} declared → declared.Same other →
    SameOutcome (declared.meetAll events) (other.meetAll others)

theorem meet_same {declared other : DeclaredTypes} (same : declared.Same other) (event : TypeEvent) :
    SameOutcome (declared.meet event) (other.meet event) := by
  cases event with
  | declares name =>
    apply SameOutcome.ok
    intro another
    rw [contains_register, contains_register, same another]
  | uses name =>
    rw [meet, meet, ← same name]
    split
    · exact .ok same
    · exact .error _

theorem Interchange.append {first firstOther second secondOther : List TypeEvent}
    (here : Interchange first firstOther) (next : Interchange second secondOther) :
    Interchange (first ++ second) (firstOther ++ secondOther) := by
  intro declared other builtin same
  rw [meetAll_append, meetAll_append]
  apply (here declared other builtin same).bind
  intro later otherLater met sameLater
  exact next later otherLater (fun name known => (meetAll_ok met).right name (builtin name known)) sameLater

theorem Interchange.refl (events : List TypeEvent) : Interchange events events := by
  induction events with
  | nil => exact fun _ _ _ same => .ok same
  | cons event events ih =>
    have single : Interchange [event] [event] := by
      intro declared other _ same
      rw [meetAll, meetAll, List.foldlM_cons, List.foldlM_cons]
      simpa only [List.foldlM_nil, bind_pure] using meet_same same event
    exact single.append ih

/-- Lists of events that are accepted on their own are interchangeable if they declare the same names. -/
theorem Interchange.of_accepted {events others : List TypeEvent} {later otherLater : DeclaredTypes}
    (met : meetAll {} events = .ok later) (otherMet : meetAll {} others = .ok otherLater)
    (declares : ∀ name, .declares name ∈ others ↔ .declares name ∈ events) : Interchange events others := by
  intro declared other builtin same
  have otherBuiltin : Within {} other := fun name known => (same name).symm.trans (builtin name known)
  obtain ⟨final, done, _⟩ := meetAll_within builtin met
  obtain ⟨otherFinal, otherDone, _⟩ := meetAll_within otherBuiltin otherMet
  rw [done, otherDone]
  apply SameOutcome.ok
  intro name
  rw [Bool.eq_iff_iff, contains_meetAll done, contains_meetAll otherDone, same name, declares name]

end DeclaredTypes

/-- The shared programs with these identities are copies of one program, which does not import any of them,
and another program looks like it from outside. -/
structure Exchangeable (modules : List Module) (ids : List Nat) (original other : Program) : Prop where
  copies : ∀ shared ∈ modules, shared.id ∈ ids → shared.program = original
  apart : ∀ inside ∈ original.modules, inside.id ∉ ids
  alike : original.AlikeOutside other

section Exchange

variable {modules : List Module} {ids : List Nat} {original other : Program}

/-- Copies of one program do not import each other. -/
theorem Program.AlikeOutside.exchangeable {program : Program} {shared : Module}
    (alike : shared.program.AlikeOutside other) (imported : shared ∈ program.modules)
    (copies : ∀ inside ∈ program.modules, inside.id ∈ ids → inside.program = shared.program) :
    Exchangeable program.modules ids shared.program other := by
  refine ⟨copies, ?_, alike⟩
  intro inside below found
  rw [← copies inside (modules_subset imported below) found] at below
  exact inside.not_mem_modules below

theorem Exchangeable.same (exchangeable : Exchangeable modules ids original other) {id : Nat}
    {program : Program} (member : ⟨id, program⟩ ∈ modules) (found : id ∈ ids) : program = original :=
  exchangeable.copies _ member found

section Environments

theorem Module.declareAll_exported_exchange (exchangeable : Exchangeable modules ids original other)
    {shared : Module} (member : shared ∈ modules) (environment : Environment) :
    environment.declareAll (Module.exchange ids other shared).program.exported =
      environment.declareAll shared.program.exported := by
  obtain ⟨id, program⟩ := shared
  simp only [Module.exchange]
  split
  next found =>
    rw [exchangeable.same member found]
    calc environment.declareAll other.exported
      _ = environment.declareAll (other.exported.map Decl.emptied) :=
          (environment.declareAll_emptied other.exported).symm
      _ = environment.declareAll (original.exported.map Decl.emptied) := by
          rw [exchangeable.alike.exported]
      _ = environment.declareAll original.exported :=
          environment.declareAll_emptied original.exported
  next =>
    obtain ⟨imports, decls⟩ := program
    rfl

theorem Environment.importAll_exchange (exchangeable : Exchangeable modules ids original other)
    (environment : Environment) (imports : List Import) (inside : importsModules imports ⊆ modules) :
    environment.importAll (importsExchange ids other imports) = environment.importAll imports := by
  induction imports generalizing environment with
  | nil => rfl
  | cons entry imports ih =>
    obtain ⟨path, target⟩ := entry
    obtain ⟨first, rest⟩ := List.append_subset.mp inside
    cases target with
    | none => rfl
    | some shared =>
      have member : shared ∈ modules := by
        cases shared
        exact first List.mem_cons_self
      simp only [importsExchange, Import.exchange, targetExchange, importAll,
        Module.declareAll_exported_exchange exchangeable member]
      exact ih _ rest

theorem Environment.ofProgram_exchange (exchangeable : Exchangeable modules ids original other)
    (imports : List Import) (decls : List Decl) (inside : importsModules imports ⊆ modules) :
    ofProgram ⟨importsExchange ids other imports, decls⟩ = ofProgram ⟨imports, decls⟩ := by
  rw [ofProgram, ofProgram, importAll_exchange exchangeable {} imports inside]

end Environments

section Coherence

theorem Exchangeable.modules_eq (exchangeable : Exchangeable modules ids original other) :
    other.modules = original.modules := by
  have imports := exchangeable.alike.imports
  cases original
  cases other
  exact congrArg importsModules imports

/-- What the shared program imports itself stays, since nothing there has its identity. -/
theorem Exchangeable.map_exchange (exchangeable : Exchangeable modules ids original other) :
    original.modules.map (Module.exchange ids other) = original.modules := by
  calc original.modules.map (Module.exchange ids other)
    _ = original.modules.map id := by
        apply List.map_congr_left
        intro inside below
        apply Module.exchange_of_absent
        exact fun deeper reached => exchangeable.apart deeper ((Program.modules_sublist below).subset reached)
    _ = original.modules := List.map_id _

mutual

theorem Program.modules_exchange (exchangeable : Exchangeable modules ids original other) (program : Program)
    (inside : program.modules ⊆ modules) :
    (Program.exchange ids other program).modules =
      program.modules.map (Module.exchange ids other) := by
  match program with
  | ⟨imports, decls⟩ => exact importsModules_exchange exchangeable imports inside

theorem importsModules_exchange (exchangeable : Exchangeable modules ids original other) (imports : List Import)
    (inside : importsModules imports ⊆ modules) :
    importsModules (importsExchange ids other imports) =
      (importsModules imports).map (Module.exchange ids other) := by
  match imports with
  | [] => rfl
  | entry :: imports =>
    obtain ⟨first, rest⟩ := List.append_subset.mp inside
    simp only [importsExchange, importsModules, List.map_append,
      Import.modules_exchange exchangeable entry first, importsModules_exchange exchangeable imports rest]

theorem Import.modules_exchange (exchangeable : Exchangeable modules ids original other) (entry : Import)
    (inside : Import.modules entry ⊆ modules) :
    Import.modules (Import.exchange ids other entry) =
      (Import.modules entry).map (Module.exchange ids other) := by
  match entry with
  | ⟨_, target⟩ => exact targetModules_exchange exchangeable target inside

theorem targetModules_exchange (exchangeable : Exchangeable modules ids original other) (target : Option Module)
    (inside : targetModules target ⊆ modules) :
    targetModules (targetExchange ids other target) =
      (targetModules target).map (Module.exchange ids other) := by
  match target with
  | none => rfl
  | some shared => exact Module.modules_exchange exchangeable shared inside

theorem Module.modules_exchange (exchangeable : Exchangeable modules ids original other) (shared : Module)
    (inside : Module.modules shared ⊆ modules) :
    Module.modules (Module.exchange ids other shared) =
      (Module.modules shared).map (Module.exchange ids other) := by
  match shared with
  | ⟨id, program⟩ =>
    obtain ⟨member, below⟩ := List.cons_subset.mp inside
    by_cases found : id ∈ ids
    · rw [exchangeable.same member found]
      simp only [Module.exchange, if_pos found, Module.modules, List.map_cons, exchangeable.map_exchange,
        exchangeable.modules_eq]
    · simp only [Module.exchange, if_neg found, Module.modules, List.map_cons,
        Program.modules_exchange exchangeable program below]

end

theorem Program.Coherent.exchange {program : Program} (coherent : program.Coherent)
    (exchangeable : Exchangeable program.modules ids original other) :
    (Program.exchange ids other program).Coherent := by
  intro left leftIn right rightIn same
  rw [Program.modules_exchange exchangeable program (List.Subset.refl _), List.mem_map] at leftIn rightIn
  obtain ⟨leftBefore, leftIn, rfl⟩ := leftIn
  obtain ⟨rightBefore, rightIn, rfl⟩ := rightIn
  rw [Module.id_exchange, Module.id_exchange] at same
  exact congrArg (Module.exchange ids other) (coherent leftBefore leftIn rightBefore rightIn same)

end Coherence

section Events

mutual

theorem Program.interchange_exchange (exchangeable : Exchangeable modules ids original other)
    (events : DeclaredTypes.Interchange original.typeEventsApart other.typeEventsApart)
    (program : Program) (inside : program.modules ⊆ modules) :
    DeclaredTypes.Interchange program.typeEventsApart
      (Program.exchange ids other program).typeEventsApart := by
  match program with
  | ⟨imports, decls⟩ =>
    exact (importsInterchange_exchange exchangeable events imports inside).append (.refl _)

theorem importsInterchange_exchange (exchangeable : Exchangeable modules ids original other)
    (events : DeclaredTypes.Interchange original.typeEventsApart other.typeEventsApart)
    (imports : List Import) (inside : importsModules imports ⊆ modules) :
    DeclaredTypes.Interchange (importsTypeEventsApart imports)
      (importsTypeEventsApart (importsExchange ids other imports)) := by
  match imports with
  | [] => exact .refl []
  | entry :: imports =>
    obtain ⟨first, rest⟩ := List.append_subset.mp inside
    exact (Import.interchange_exchange exchangeable events entry first).append
      (importsInterchange_exchange exchangeable events imports rest)

theorem Import.interchange_exchange (exchangeable : Exchangeable modules ids original other)
    (events : DeclaredTypes.Interchange original.typeEventsApart other.typeEventsApart)
    (entry : Import) (inside : Import.modules entry ⊆ modules) :
    DeclaredTypes.Interchange (Import.typeEventsApart entry)
      (Import.typeEventsApart (Import.exchange ids other entry)) := by
  match entry with
  | ⟨_, target⟩ => exact targetInterchange_exchange exchangeable events target inside

theorem targetInterchange_exchange (exchangeable : Exchangeable modules ids original other)
    (events : DeclaredTypes.Interchange original.typeEventsApart other.typeEventsApart)
    (target : Option Module) (inside : targetModules target ⊆ modules) :
    DeclaredTypes.Interchange (targetTypeEventsApart target)
      (targetTypeEventsApart (targetExchange ids other target)) := by
  match target with
  | none => exact .refl []
  | some shared => exact Module.interchange_exchange exchangeable events shared inside

theorem Module.interchange_exchange (exchangeable : Exchangeable modules ids original other)
    (events : DeclaredTypes.Interchange original.typeEventsApart other.typeEventsApart)
    (shared : Module) (inside : Module.modules shared ⊆ modules) :
    DeclaredTypes.Interchange (Module.typeEventsApart shared)
      (Module.typeEventsApart (Module.exchange ids other shared)) := by
  match shared with
  | ⟨id, program⟩ =>
    obtain ⟨member, below⟩ := List.cons_subset.mp inside
    simp only [Module.exchange, Module.typeEventsApart]
    split
    next found =>
      rw [exchangeable.same member found]
      exact events
    next => exact Program.interchange_exchange exchangeable events program below

end

end Events

section Bodies

variable {checkedOriginal checkedOther : Program}

mutual

theorem Program.checkBodiesApart_exchange (exchangeable : Exchangeable modules ids original other)
    (done : original.checkBodiesApart = .ok checkedOriginal)
    (otherDone : other.checkBodiesApart = .ok checkedOther) (program : Program)
    (inside : program.modules ⊆ modules) :
    (Program.exchange ids other program).checkBodiesApart =
      program.checkBodiesApart.map (Program.exchange ids checkedOther) := by
  match program with
  | ⟨imports, decls⟩ =>
    simp only [Program.exchange, Program.checkBodiesApart,
      importsCheckBodiesApart_exchange exchangeable done otherDone imports inside,
      Environment.ofProgram_exchange exchangeable imports decls inside]
    cases importsCheckBodiesApart imports with
    | error error => rfl
    | ok checkedImports =>
      cases decls.mapM (Decl.checkBody (Environment.ofProgram ⟨imports, decls⟩)) <;> rfl

theorem importsCheckBodiesApart_exchange (exchangeable : Exchangeable modules ids original other)
    (done : original.checkBodiesApart = .ok checkedOriginal)
    (otherDone : other.checkBodiesApart = .ok checkedOther) (imports : List Import)
    (inside : importsModules imports ⊆ modules) :
    importsCheckBodiesApart (importsExchange ids other imports) =
      (importsCheckBodiesApart imports).map (importsExchange ids checkedOther) := by
  match imports with
  | [] => rfl
  | entry :: imports =>
    obtain ⟨first, rest⟩ := List.append_subset.mp inside
    simp only [importsExchange, importsCheckBodiesApart,
      Import.checkBodiesApart_exchange exchangeable done otherDone entry first,
      importsCheckBodiesApart_exchange exchangeable done otherDone imports rest]
    cases Import.checkBodiesApart entry with
    | error error => rfl
    | ok checked => cases importsCheckBodiesApart imports <;> rfl

theorem Import.checkBodiesApart_exchange (exchangeable : Exchangeable modules ids original other)
    (done : original.checkBodiesApart = .ok checkedOriginal)
    (otherDone : other.checkBodiesApart = .ok checkedOther) (entry : Import)
    (inside : Import.modules entry ⊆ modules) :
    Import.checkBodiesApart (Import.exchange ids other entry) =
      (Import.checkBodiesApart entry).map (Import.exchange ids checkedOther) := by
  match entry with
  | ⟨path, target⟩ =>
    simp only [Import.exchange, Import.checkBodiesApart,
      targetCheckBodiesApart_exchange exchangeable done otherDone target inside]
    cases targetCheckBodiesApart target <;> rfl

theorem targetCheckBodiesApart_exchange (exchangeable : Exchangeable modules ids original other)
    (done : original.checkBodiesApart = .ok checkedOriginal)
    (otherDone : other.checkBodiesApart = .ok checkedOther) (target : Option Module)
    (inside : targetModules target ⊆ modules) :
    targetCheckBodiesApart (targetExchange ids other target) =
      (targetCheckBodiesApart target).map (targetExchange ids checkedOther) := by
  match target with
  | none => rfl
  | some shared =>
    simp only [targetExchange, targetCheckBodiesApart,
      Module.checkBodiesApart_exchange exchangeable done otherDone shared inside]
    cases Module.checkBodiesApart shared <;> rfl

theorem Module.checkBodiesApart_exchange (exchangeable : Exchangeable modules ids original other)
    (done : original.checkBodiesApart = .ok checkedOriginal)
    (otherDone : other.checkBodiesApart = .ok checkedOther) (shared : Module)
    (inside : Module.modules shared ⊆ modules) :
    Module.checkBodiesApart (Module.exchange ids other shared) =
      (Module.checkBodiesApart shared).map (Module.exchange ids checkedOther) := by
  match shared with
  | ⟨id, program⟩ =>
    obtain ⟨member, below⟩ := List.cons_subset.mp inside
    by_cases found : id ∈ ids
    · rw [exchangeable.same member found]
      simp only [Module.exchange, if_pos found, Module.checkBodiesApart, done, otherDone]
      exact congrArg (fun inside => Except.ok (Module.mk id inside)) (if_pos found).symm
    · simp only [Module.exchange, if_neg found, Module.checkBodiesApart,
        Program.checkBodiesApart_exchange exchangeable done otherDone program below]
      cases program.checkBodiesApart with
      | error error => rfl
      | ok checked => exact congrArg (fun inside => Except.ok (Module.mk id inside)) (if_neg found).symm

end

theorem Program.checkApart_exchange (exchangeable : Exchangeable modules ids original other)
    (events : DeclaredTypes.Interchange original.typeEventsApart other.typeEventsApart)
    (done : original.checkBodiesApart = .ok checkedOriginal)
    (otherDone : other.checkBodiesApart = .ok checkedOther) (program : Program)
    (inside : program.modules ⊆ modules) :
    (exchange ids other program).checkApart = program.checkApart.map (exchange ids checkedOther) := by
  have ends := interchange_exchange exchangeable events program inside {} {} (fun _ known => known) fun _ => rfl
  calc (exchange ids other program).checkApart
    _ = DeclaredTypes.meetAll {} (exchange ids other program).typeEventsApart >>= fun _ =>
          program.checkBodiesApart.map (exchange ids checkedOther) := by
        rw [checkApart, checkBodiesApart_exchange exchangeable done otherDone program inside]
    _ = DeclaredTypes.meetAll {} program.typeEventsApart >>= fun _ =>
          program.checkBodiesApart.map (exchange ids checkedOther) := ends.bind_eq _
    _ = program.checkApart.map (exchange ids checkedOther) := by
        rw [checkApart]
        cases DeclaredTypes.meetAll {} program.typeEventsApart <;> rfl

end Bodies

end Exchange

section Alike

variable {program other checked checkedOther : Program}

theorem Program.AlikeOutside.interchange (alike : program.AlikeOutside other)
    {later otherLater : DeclaredTypes} (met : DeclaredTypes.meetAll {} program.typeEventsApart = .ok later)
    (otherMet : DeclaredTypes.meetAll {} other.typeEventsApart = .ok otherLater) :
    DeclaredTypes.Interchange program.typeEventsApart other.typeEventsApart := by
  apply DeclaredTypes.Interchange.of_accepted met otherMet
  intro name
  have own : .declares name ∈ other.decls.flatMap Decl.typeEvents ↔
      .declares name ∈ program.decls.flatMap Decl.typeEvents := by
    rw [declares_mem_iff, declares_mem_iff, alike.objectNames]
  have imports := alike.imports
  obtain ⟨_, _⟩ := program
  obtain ⟨_, _⟩ := other
  cases imports
  rw [typeEventsApart, typeEventsApart, List.mem_append, List.mem_append]
  exact or_congr_right own

theorem Program.AlikeOutside.checkedImports (alike : program.AlikeOutside other)
    (done : program.checkBodiesApart = .ok checked) (otherDone : other.checkBodiesApart = .ok checkedOther) :
    checked.imports = checkedOther.imports := by
  have imports := alike.imports
  obtain ⟨_, _⟩ := program
  obtain ⟨_, _⟩ := other
  cases imports
  obtain ⟨_, _, behind, _, rfl⟩ := (checkBodiesApart_eq_ok_iff _ _ _).mp done
  obtain ⟨_, _, otherBehind, _, rfl⟩ := (checkBodiesApart_eq_ok_iff _ _ _).mp otherDone
  exact Except.ok.inj (behind.symm.trans otherBehind)

end Alike

/-- What a module keeps private does not reach its importers. Let two programs pass the check on their own
and look alike from outside. Where the one takes the place of the other behind imports, a check of the
importing program ends with the same error, or with the same decorated tree but for the program that took
the place; what that program imports is decorated as before too. -/
theorem Program.check_exchange {program other checkedOther : Program} {shared : Module} {ids : List Nat}
    (coherent : program.Coherent) (imported : shared ∈ program.modules)
    (copies : ∀ inside ∈ program.modules, inside.id ∈ ids → inside.program = shared.program)
    (accepted : shared.program.Accepted) (otherAccepted : other.check = .ok checkedOther)
    (alike : shared.program.AlikeOutside other) :
    (exchange ids other program).check = program.check.map (exchange ids checkedOther) ∧
    ∀ checked, program.check = .ok checked → ∀ inside ∈ checked.modules, inside.id ∈ ids →
      inside.program.imports = checkedOther.imports := by
  have exchangeable := alike.exchangeable imported copies
  have sharedCoherent : shared.program.Coherent := coherent.shared imported
  have otherCoherent : other.Coherent := by
    rw [Coherent, exchangeable.modules_eq]
    exact sharedCoherent
  obtain ⟨checkedShared, accepted⟩ := accepted
  have done := checkBodiesApart_of_check sharedCoherent accepted
  have otherDone := checkBodiesApart_of_check otherCoherent otherAccepted
  refine ⟨?_, ?_⟩
  · obtain ⟨_, met⟩ := meetAll_of_check sharedCoherent accepted
    obtain ⟨_, otherMet⟩ := meetAll_of_check otherCoherent otherAccepted
    rw [check_eq_checkApart coherent, check_eq_checkApart (coherent.exchange exchangeable)]
    exact checkApart_exchange exchangeable (alike.interchange met otherMet) done otherDone program
      (List.Subset.refl _)
  · intro checked accepted inside member found
    obtain ⟨before, beforeIn, same, insideDone⟩ :=
      modules_of_checkBodiesApart (checkBodiesApart_of_check coherent accepted) inside member
    rw [same] at found
    rw [copies before beforeIn found] at insideDone
    exact alike.checkedImports insideDone otherDone

/-- An object of a module may be kept private with other properties, and a function may be written anew: the
module itself and another one that imports it are used as before. -/
theorem Program.check_exchange_hidden :
    let shape := Decl.object { exported := true, name := "Shape", properties := [⟨"size", .int32⟩] }
    let cache := fun properties => Decl.object { name := "Cache", properties }
    let make := fun body => Decl.function ⟨true, "make", .scalar "Shape", [], body⟩
    let shapes := Program.mk [] [shape, cache [⟨"hits", .int32⟩], make []]
    let other := Program.mk [] [shape, .function ⟨false, "help", .void, [], []⟩,
      make [.declare "text" .string (some (.string "new" none))], cache [⟨"label", .string⟩]]
    let make := Expr.call (.var "make" none) [] none
    let draw := FunctionDecl.mk true "draw" .void []
      [.declare "size" .int32 (some (.property make "size" none))]
    let drawing := Program.mk [⟨"shapes", some ⟨0, shapes⟩⟩] [.function draw]
    let main := FunctionDecl.mk false "main" .void [] [.declare "shape" (.scalar "Shape") (some make),
      .call (.var "draw" none) [] none]
    let program : Program :=
      ⟨[⟨"drawing", some ⟨1, drawing⟩⟩, ⟨"shapes", some ⟨0, shapes⟩⟩], [.function main]⟩
    program.Coherent ∧ shapes.Accepted ∧ shapes.AlikeOutside other ∧ program.Accepted ∧
      ∃ checkedOther, other.check = .ok checkedOther ∧
        (Program.exchange [0] other program).check = program.check.map (Program.exchange [0] checkedOther) := by
  intro shape cache make shapes other call draw drawing main program
  have modules : program.modules = [⟨1, drawing⟩, ⟨0, shapes⟩, ⟨0, shapes⟩] := rfl
  have coherent : program.Coherent := by
    intro left leftIn right rightIn same
    simp only [modules, List.mem_cons, List.not_mem_nil, or_false, or_self] at leftIn rightIn
    rcases leftIn with rfl | rfl <;> rcases rightIn with rfl | rfl <;> first | rfl | cases same
  have copies : ∀ inside ∈ program.modules, inside.id ∈ [0] → inside.program = shapes := by
    intro inside member found
    simp only [modules, List.mem_cons, List.not_mem_nil, or_false, or_self] at member
    rcases member with rfl | rfl
    · exact absurd found (by decide)
    · rfl
  have imported : ⟨0, shapes⟩ ∈ program.modules := List.mem_cons_of_mem _ List.mem_cons_self
  have alike : shapes.AlikeOutside other := ⟨rfl, rfl, fun _ => Iff.rfl⟩
  exact ⟨coherent, ⟨_, rfl⟩, alike, ⟨_, rfl⟩, _, rfl,
    (Program.check_exchange coherent imported copies ⟨_, rfl⟩ rfl alike).left⟩

end TypedTree
