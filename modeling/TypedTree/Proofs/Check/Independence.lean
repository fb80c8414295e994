import TypedTree.Proofs.Check.Modular
import Mathlib.Data.List.Forall2
/-! Function bodies are checked independently. A program is accepted exactly if it is accepted with all
bodies but one taken away, whichever is left, and that one is then decorated as it is among the others. -/

namespace TypedTree

/-- Where a declaration stands: a shared program, or the program that is checked, and a position in it. -/
structure FunctionPlace where
  home : Option Nat
  index : Nat
deriving DecidableEq

structure Site where
  place : FunctionPlace
  environment : Except Error Environment
  decl : Decl

def Program.ownSites (home : Option Nat) (program : Program) : List Site :=
  program.decls.mapIdx fun index decl => ⟨⟨home, index⟩, Environment.ofProgram program, decl⟩

mutual

/-- The declarations of a program and of all programs it imports, in the order of a check. -/
def Program.sites (home : Option Nat) : Program → List Site
  | ⟨imports, decls⟩ => importsSites imports ++ Program.ownSites home ⟨imports, decls⟩

def importsSites : List Import → List Site
  | [] => []
  | entry :: imports => Import.sites entry ++ importsSites imports

def Import.sites : Import → List Site
  | ⟨_, target⟩ => targetSites target

def targetSites : Option Module → List Site
  | none => []
  | some shared => Module.sites shared

def Module.sites : Module → List Site
  | ⟨id, program⟩ => program.sites (some id)

end

def Decl.function? : Decl → Option FunctionDecl
  | .function declaration => some declaration
  | .object _ => none

def Site.functionAt? (place : FunctionPlace) (site : Site) : Option FunctionDecl :=
  if site.place = place then site.decl.function? else none

/-- The function at a place in a program or in one of the programs it imports. -/
def Program.functionAt? (program : Program) (place : FunctionPlace) : Option FunctionDecl :=
  (program.sites none).findSome? (Site.functionAt? place)

def Decl.emptied : Decl → Decl
  | .function declaration => .function { declaration with body := [] }
  | .object declaration => .object declaration

def isolateDecls (place : FunctionPlace) (home : Option Nat) (decls : List Decl) : List Decl :=
  decls.mapIdx fun index decl => if place = ⟨home, index⟩ then decl else decl.emptied

mutual

def Program.isolate (place : FunctionPlace) (home : Option Nat) : Program → Program
  | ⟨imports, decls⟩ => ⟨importsIsolate place imports, isolateDecls place home decls⟩

def importsIsolate (place : FunctionPlace) : List Import → List Import
  | [] => []
  | entry :: imports => Import.isolate place entry :: importsIsolate place imports

def Import.isolate (place : FunctionPlace) : Import → Import
  | ⟨path, target⟩ => ⟨path, targetIsolate place target⟩

def targetIsolate (place : FunctionPlace) : Option Module → Option Module
  | none => none
  | some shared => some (Module.isolate place shared)

def Module.isolate (place : FunctionPlace) : Module → Module
  | ⟨id, program⟩ => ⟨id, program.isolate place (some id)⟩

end

/-- The program with every function body emptied but that of the function at a place. -/
def Program.isolated (program : Program) (place : FunctionPlace) : Program := program.isolate place none

def Site.isolate (place : FunctionPlace) (site : Site) : Site :=
  { site with decl := if place = site.place then site.decl else site.decl.emptied }

section Lists

variable {α β γ : Type}

theorem map_mapIdx (step : Nat → α → β) (after : β → γ) (values : List α) :
    (values.mapIdx step).map after = values.mapIdx fun index value => after (step index value) := by
  apply List.ext_getElem?
  intro index
  rw [List.getElem?_map, List.getElem?_mapIdx, List.getElem?_mapIdx, Option.map_map]
  rfl

theorem mapIdx_eq_map (step : α → β) (values : List α) :
    (values.mapIdx fun _ value => step value) = values.map step := by
  apply List.ext_getElem?
  intro index
  rw [List.getElem?_mapIdx, List.getElem?_map]

end Lists

section Environments

variable (environment : Environment) (place : FunctionPlace) (home : Option Nat)

theorem Decl.emptied_isolate (index : Nat) (decl : Decl) :
    (if place = ⟨home, index⟩ then decl else decl.emptied).emptied = decl.emptied := by
  split
  · rfl
  · cases decl <;> rfl

theorem map_emptied_isolateDecls (decls : List Decl) :
    (isolateDecls place home decls).map Decl.emptied = decls.map Decl.emptied := by
  simp only [isolateDecls, map_mapIdx, Decl.emptied_isolate, mapIdx_eq_map]

namespace Environment

theorem declareAll_emptied (decls : List Decl) :
    environment.declareAll (decls.map Decl.emptied) = environment.declareAll decls := by
  induction decls generalizing environment with
  | nil => rfl
  | cons decl decls ih =>
    have same : environment.declare decl.emptied = environment.declare decl := by cases decl <;> rfl
    change (environment.declare decl.emptied).declareAll _ = (environment.declare decl).declareAll _
    rw [same, ih]

theorem declareAll_isolateDecls (decls : List Decl) :
    environment.declareAll (isolateDecls place home decls) = environment.declareAll decls := by
  rw [← declareAll_emptied, map_emptied_isolateDecls, declareAll_emptied]

theorem filter_exported_emptied (decls : List Decl) :
    (decls.map Decl.emptied).filter Decl.exported = (decls.filter Decl.exported).map Decl.emptied := by
  rw [List.filter_map]
  congr 2
  funext decl
  cases decl <;> rfl

theorem declareAll_exported_isolate (program : Program) :
    environment.declareAll (program.isolate place home).exported = environment.declareAll program.exported := by
  obtain ⟨imports, decls⟩ := program
  simp only [Program.isolate, Program.exported]
  rw [← declareAll_emptied, ← filter_exported_emptied, map_emptied_isolateDecls, filter_exported_emptied,
    declareAll_emptied]

theorem importAll_isolate (imports : List Import) :
    environment.importAll (importsIsolate place imports) = environment.importAll imports := by
  induction imports generalizing environment with
  | nil => rfl
  | cons entry imports ih =>
    obtain ⟨path, target⟩ := entry
    cases target with
    | none => rfl
    | some shared =>
      obtain ⟨id, program⟩ := shared
      simp only [importsIsolate, Import.isolate, targetIsolate, Module.isolate, importAll,
        declareAll_exported_isolate, ih]

theorem ofProgram_isolate (program : Program) :
    ofProgram (program.isolate place home) = ofProgram program := by
  obtain ⟨imports, decls⟩ := program
  simp only [ofProgram, Program.isolate, importAll_isolate, declareAll_isolateDecls]

end Environment

end Environments

section Sites

variable (place : FunctionPlace)

theorem Program.ownSites_isolate (home : Option Nat) (program : Program) :
    Program.ownSites home (program.isolate place home) = (Program.ownSites home program).map (Site.isolate place) := by
  rw [ownSites, Environment.ofProgram_isolate]
  obtain ⟨imports, decls⟩ := program
  simp only [isolate, isolateDecls, ownSites, List.mapIdx_mapIdx, map_mapIdx]
  rfl

mutual

theorem Program.sites_isolate (home : Option Nat) (program : Program) :
    (program.isolate place home).sites home = (program.sites home).map (Site.isolate place) := by
  match program with
  | ⟨imports, decls⟩ =>
    have own := Program.ownSites_isolate place home ⟨imports, decls⟩
    simp only [Program.isolate] at own
    simp only [Program.isolate, Program.sites, List.map_append, importsSites_isolate imports, own]

theorem importsSites_isolate (imports : List Import) :
    importsSites (importsIsolate place imports) = (importsSites imports).map (Site.isolate place) := by
  match imports with
  | [] => rfl
  | entry :: imports =>
    simp only [importsIsolate, importsSites, List.map_append, Import.sites_isolate entry,
      importsSites_isolate imports]

theorem Import.sites_isolate (entry : Import) :
    Import.sites (Import.isolate place entry) = (Import.sites entry).map (Site.isolate place) := by
  match entry with
  | ⟨_, target⟩ => simp only [Import.isolate, Import.sites, targetSites_isolate target]

theorem targetSites_isolate (target : Option Module) :
    targetSites (targetIsolate place target) = (targetSites target).map (Site.isolate place) := by
  match target with
  | none => rfl
  | some shared => simp only [targetIsolate, targetSites, Module.sites_isolate shared]

theorem Module.sites_isolate (shared : Module) :
    Module.sites (Module.isolate place shared) = (Module.sites shared).map (Site.isolate place) := by
  match shared with
  | ⟨id, program⟩ => simp only [Module.isolate, Module.sites, Program.sites_isolate (some id) program]

end

mutual

theorem Program.modules_isolate (home : Option Nat) (program : Program) :
    (program.isolate place home).modules = program.modules.map (Module.isolate place) := by
  match program with
  | ⟨imports, decls⟩ => exact importsModules_isolate imports

theorem importsModules_isolate (imports : List Import) :
    importsModules (importsIsolate place imports) = (importsModules imports).map (Module.isolate place) := by
  match imports with
  | [] => rfl
  | entry :: imports =>
    simp only [importsIsolate, importsModules, List.map_append, Import.modules_isolate entry,
      importsModules_isolate imports]

theorem Import.modules_isolate (entry : Import) :
    Import.modules (Import.isolate place entry) = (Import.modules entry).map (Module.isolate place) := by
  match entry with
  | ⟨_, target⟩ => simp only [Import.isolate, Import.modules, targetModules_isolate target]

theorem targetModules_isolate (target : Option Module) :
    targetModules (targetIsolate place target) = (targetModules target).map (Module.isolate place) := by
  match target with
  | none => rfl
  | some shared => simp only [targetIsolate, targetModules, Module.modules_isolate shared]

theorem Module.modules_isolate (shared : Module) :
    Module.modules (Module.isolate place shared) = (Module.modules shared).map (Module.isolate place) := by
  match shared with
  | ⟨id, program⟩ =>
    simp only [Module.isolate, Module.modules, List.map_cons, Program.modules_isolate (some id) program]

end

theorem Module.id_isolate (shared : Module) : (Module.isolate place shared).id = shared.id := by
  cases shared
  rfl

theorem Program.Coherent.isolated {program : Program} (coherent : program.Coherent) :
    (program.isolated place).Coherent := by
  intro left leftIn right rightIn same
  rw [Program.isolated, Program.modules_isolate, List.mem_map] at leftIn rightIn
  obtain ⟨leftBefore, leftIn, rfl⟩ := leftIn
  obtain ⟨rightBefore, rightIn, rfl⟩ := rightIn
  rw [Module.id_isolate, Module.id_isolate] at same
  exact congrArg (Module.isolate place) (coherent leftBefore leftIn rightBefore rightIn same)

mutual

theorem Program.typeEventsApart_eq (home : Option Nat) (program : Program) :
    program.typeEventsApart = (program.sites home).flatMap fun site => site.decl.typeEvents := by
  match program with
  | ⟨imports, decls⟩ =>
    have own : decls.flatMap Decl.typeEvents =
        (Program.ownSites home ⟨imports, decls⟩).flatMap fun site => site.decl.typeEvents := by
      simp only [Program.ownSites, List.flatMap_def, map_mapIdx, mapIdx_eq_map]
    simp only [Program.typeEventsApart, Program.sites, List.flatMap_append,
      importsTypeEventsApart_eq imports, own]

theorem importsTypeEventsApart_eq (imports : List Import) :
    importsTypeEventsApart imports = (importsSites imports).flatMap fun site => site.decl.typeEvents := by
  match imports with
  | [] => rfl
  | entry :: imports =>
    simp only [importsTypeEventsApart, importsSites, List.flatMap_append, Import.typeEventsApart_eq entry,
      importsTypeEventsApart_eq imports]

theorem Import.typeEventsApart_eq (entry : Import) :
    Import.typeEventsApart entry = (Import.sites entry).flatMap fun site => site.decl.typeEvents := by
  match entry with
  | ⟨_, target⟩ => simp only [Import.typeEventsApart, Import.sites, targetTypeEventsApart_eq target]

theorem targetTypeEventsApart_eq (target : Option Module) :
    targetTypeEventsApart target = (targetSites target).flatMap fun site => site.decl.typeEvents := by
  match target with
  | none => rfl
  | some shared => simp only [targetTypeEventsApart, targetSites, Module.typeEventsApart_eq shared]

theorem Module.typeEventsApart_eq (shared : Module) :
    Module.typeEventsApart shared = (Module.sites shared).flatMap fun site => site.decl.typeEvents := by
  match shared with
  | ⟨id, program⟩ =>
    simp only [Module.typeEventsApart, Module.sites, Program.typeEventsApart_eq (some id) program]

end

end Sites

/-! ### Types named in bodies -/

mutual

theorem Stmt.typeEvents_uses (stmt : Stmt) : ∀ event ∈ stmt.typeEvents, ∃ name, event = .uses name := by
  match stmt with
  | .declare _ type _ => exact List.forall_mem_singleton.mpr ⟨type.name, rfl⟩
  | .assign .. | .call .. => exact fun _ member => (nomatch member)
  | .branch _ thenBranch elseBranch =>
    exact List.forall_mem_append.mpr ⟨thenBranch.typeEvents_uses, elseTypeEvents_uses elseBranch⟩
  | .block lines => exact linesTypeEvents_uses lines

theorem elseTypeEvents_uses (branch : Option Stmt) :
    ∀ event ∈ elseTypeEvents branch, ∃ name, event = .uses name := by
  match branch with
  | none => exact fun _ member => (nomatch member)
  | some branch => exact branch.typeEvents_uses

theorem linesTypeEvents_uses (lines : List Stmt) :
    ∀ event ∈ linesTypeEvents lines, ∃ name, event = .uses name := by
  match lines with
  | [] => exact fun _ member => (nomatch member)
  | line :: lines =>
    exact List.forall_mem_append.mpr ⟨line.typeEvents_uses, linesTypeEvents_uses lines⟩

end

namespace DeclaredTypes

variable {declared later : DeclaredTypes}

theorem eq_of_meetAll_uses {events : List TypeEvent} (uses : ∀ event ∈ events, ∃ name, event = .uses name)
    (met : declared.meetAll events = .ok later) : later = declared := by
  induction events generalizing declared with
  | nil =>
    cases met
    rfl
  | cons event events ih =>
    obtain ⟨⟨name, rfl⟩, rest⟩ := List.forall_mem_cons.mp uses
    rw [meetAll_cons, bind_eq_ok_iff] at met
    obtain ⟨middle, first, met⟩ := met
    rw [ih rest met]
    simp only [meet] at first
    split at first <;> cases first
    rfl

theorem meetAll_emptied {decl : Decl} (met : declared.meetAll decl.typeEvents = .ok later) :
    declared.meetAll decl.emptied.typeEvents = .ok later := by
  cases decl with
  | object declaration => exact met
  | function declaration =>
    rw [Decl.typeEvents, meetAll_append, bind_eq_ok_iff] at met
    obtain ⟨middle, face, body⟩ := met
    rw [eq_of_meetAll_uses (linesTypeEvents_uses declaration.body) body, Decl.emptied, Decl.typeEvents,
      linesTypeEvents, List.append_nil]
    exact face

theorem meetAll_isolate {site : Site} (met : declared.meetAll site.decl.typeEvents = .ok later)
    (place : FunctionPlace) : declared.meetAll (site.isolate place).decl.typeEvents = .ok later := by
  unfold Site.isolate
  dsimp only
  split
  · exact met
  · exact meetAll_emptied met

/-- The types named in declarations are declared if they are for each choice of the one body that is left,
given that there is a choice and that every function can be chosen. -/
theorem meetAll_sites_iff (chosen : FunctionPlace → Prop) (choice : ∃ place, chosen place) (sites : List Site)
    (all : ∀ site ∈ sites, site.decl.function?.isSome = true → chosen site.place) (declared : DeclaredTypes) :
    (∃ later, declared.meetAll (sites.flatMap fun site => site.decl.typeEvents) = .ok later) ↔
      ∀ place, chosen place → ∃ later,
        declared.meetAll ((sites.map (Site.isolate place)).flatMap fun site => site.decl.typeEvents) =
          .ok later := by
  induction sites generalizing declared with
  | nil => exact ⟨fun _ _ _ => ⟨declared, rfl⟩, fun _ => ⟨declared, rfl⟩⟩
  | cons site sites ih =>
    obtain ⟨here, others⟩ := List.forall_mem_cons.mp all
    simp only [List.flatMap_cons, List.map_cons, meetAll_append, bind_eq_ok_iff]
    constructor
    · rintro ⟨final, later, first, rest⟩ place isChosen
      obtain ⟨final, rest⟩ := (ih others later).mp ⟨final, rest⟩ place isChosen
      exact ⟨final, later, meetAll_isolate first place, rest⟩
    · intro each
      -- the body of this very site is left for one of the choices
      have whole : ∃ place, chosen place ∧ (site.isolate place).decl = site.decl := by
        cases function : site.decl with
        | function declaration =>
          exact ⟨site.place, here (by rw [function]; rfl), (if_pos rfl).trans function⟩
        | object declaration =>
          obtain ⟨place, isChosen⟩ := choice
          refine ⟨place, isChosen, ?_⟩
          simp only [Site.isolate, function, Decl.emptied, ite_self]
      obtain ⟨place, isChosen, same⟩ := whole
      obtain ⟨_, later, first, _⟩ := each place isChosen
      rw [same] at first
      have rest := (ih others later).mpr fun other otherChosen => by
        obtain ⟨final, otherLater, otherFirst, otherRest⟩ := each other otherChosen
        cases otherFirst.symm.trans (meetAll_isolate first other)
        exact ⟨final, otherRest⟩
      obtain ⟨final, rest⟩ := rest
      exact ⟨final, later, first, rest⟩

end DeclaredTypes

/-! ### Bodies -/

def Site.Accepted (site : Site) : Prop := ∃ checked, site.decl.checkBody site.environment = .ok checked

def Site.ChecksTo (site checked : Site) : Prop :=
  checked.place = site.place ∧ site.decl.checkBody site.environment = .ok checked.decl

theorem mapM_accepted {ε α β : Type} {step : α → Except ε β} {values : List α}
    (each : ∀ value ∈ values, ∃ result, step value = .ok result) :
    ∃ results, values.mapM step = .ok results := by
  induction values with
  | nil => exact ⟨[], rfl⟩
  | cons value values ih =>
    obtain ⟨⟨first, found⟩, others⟩ := List.forall_mem_cons.mp each
    obtain ⟨rest, foundRest⟩ := ih others
    exact ⟨first :: rest, mapM_cons_eq_ok_iff.mpr ⟨first, rest, found, foundRest, rfl⟩⟩

theorem ownSites_checksTo {environment : Except Error Environment} (other : Except Error Environment)
    {decls checked : List Decl} (accepted : decls.mapM (Decl.checkBody environment) = .ok checked)
    (place : Nat → FunctionPlace) :
    List.Forall₂ Site.ChecksTo (decls.mapIdx fun index decl => ⟨place index, environment, decl⟩)
      (checked.mapIdx fun index decl => ⟨place index, other, decl⟩) := by
  induction decls generalizing checked place with
  | nil =>
    cases accepted
    exact .nil
  | cons decl decls ih =>
    obtain ⟨first, rest, found, foundRest, rfl⟩ := mapM_cons_eq_ok_iff.mp accepted
    rw [List.mapIdx_cons, List.mapIdx_cons]
    exact .cons ⟨rfl, found⟩ (ih foundRest fun index => place (index + 1))

mutual

theorem Program.sites_checksTo (home : Option Nat) (program checked : Program)
    (accepted : program.checkBodiesApart = .ok checked) :
    List.Forall₂ Site.ChecksTo (program.sites home) (checked.sites home) := by
  match program with
  | ⟨imports, decls⟩ =>
    obtain ⟨checkedImports, checkedDecls, importsDone, declsDone, rfl⟩ :=
      (Program.checkBodiesApart_eq_ok_iff imports decls checked).mp accepted
    exact List.rel_append (importsSites_checksTo imports checkedImports importsDone)
      (ownSites_checksTo _ declsDone fun index => ⟨home, index⟩)

theorem importsSites_checksTo (imports checked : List Import)
    (accepted : importsCheckBodiesApart imports = .ok checked) :
    List.Forall₂ Site.ChecksTo (importsSites imports) (importsSites checked) := by
  match imports with
  | [] =>
    cases accepted
    exact .nil
  | entry :: imports =>
    obtain ⟨first, rest, firstDone, restDone, rfl⟩ :=
      (importsCheckBodiesApart_cons_eq_ok_iff entry imports checked).mp accepted
    exact List.rel_append (Import.sites_checksTo entry first firstDone)
      (importsSites_checksTo imports rest restDone)

theorem Import.sites_checksTo (entry checked : Import)
    (accepted : Import.checkBodiesApart entry = .ok checked) :
    List.Forall₂ Site.ChecksTo (Import.sites entry) (Import.sites checked) := by
  match entry with
  | ⟨path, none⟩ =>
    cases accepted
    exact .nil
  | ⟨path, some ⟨id, program⟩⟩ =>
    obtain ⟨inside, done, rfl⟩ :=
      (Import.checkBodiesApart_resolved_eq_ok_iff path id program checked).mp accepted
    exact Program.sites_checksTo (some id) program inside done

end

mutual

theorem Program.checkBodiesApart_of_sites (home : Option Nat) (program : Program)
    (each : ∀ site ∈ program.sites home, site.Accepted) :
    ∃ checked, program.checkBodiesApart = .ok checked := by
  match program with
  | ⟨imports, decls⟩ =>
    obtain ⟨behind, own⟩ := List.forall_mem_append.mp each
    obtain ⟨checkedImports, importsDone⟩ := importsCheckBodiesApart_of_sites imports behind
    have ownAccepted : ∀ decl ∈ decls, ∃ checked,
        decl.checkBody (Environment.ofProgram ⟨imports, decls⟩) = .ok checked := by
      intro decl member
      obtain ⟨index, bound, rfl⟩ := List.mem_iff_getElem.mp member
      exact own _ (List.mem_mapIdx.mpr ⟨index, bound, rfl⟩)
    obtain ⟨checkedDecls, declsDone⟩ := mapM_accepted ownAccepted
    refine ⟨⟨checkedImports, checkedDecls⟩, ?_⟩
    rw [Program.checkBodiesApart_eq_ok_iff]
    exact ⟨checkedImports, checkedDecls, importsDone, declsDone, rfl⟩

theorem importsCheckBodiesApart_of_sites (imports : List Import)
    (each : ∀ site ∈ importsSites imports, site.Accepted) :
    ∃ checked, importsCheckBodiesApart imports = .ok checked := by
  match imports with
  | [] => exact ⟨[], rfl⟩
  | entry :: imports =>
    obtain ⟨here, others⟩ := List.forall_mem_append.mp each
    obtain ⟨first, firstDone⟩ := Import.checkBodiesApart_of_sites entry here
    obtain ⟨rest, restDone⟩ := importsCheckBodiesApart_of_sites imports others
    refine ⟨first :: rest, ?_⟩
    rw [importsCheckBodiesApart_cons_eq_ok_iff]
    exact ⟨first, rest, firstDone, restDone, rfl⟩

theorem Import.checkBodiesApart_of_sites (entry : Import) (each : ∀ site ∈ Import.sites entry, site.Accepted) :
    ∃ checked, Import.checkBodiesApart entry = .ok checked := by
  match entry with
  | ⟨path, none⟩ => exact ⟨⟨path, none⟩, rfl⟩
  | ⟨path, some ⟨id, program⟩⟩ =>
    obtain ⟨inside, done⟩ := Program.checkBodiesApart_of_sites (some id) program each
    refine ⟨⟨path, some ⟨id, inside⟩⟩, ?_⟩
    rw [Import.checkBodiesApart_resolved_eq_ok_iff]
    exact ⟨inside, done, rfl⟩

end

theorem Program.checkBodiesApart_iff_sites (home : Option Nat) (program : Program) :
    (∃ checked, program.checkBodiesApart = .ok checked) ↔ ∀ site ∈ program.sites home, site.Accepted := by
  refine ⟨?_, program.checkBodiesApart_of_sites home⟩
  rintro ⟨checked, accepted⟩
  have each := (program.sites_checksTo home checked accepted).imp
    fun site after done => And.intro (⟨after.decl, done.right⟩ : site.Accepted) done
  exact ((List.forall₂_and_left _ _).mp each).left

theorem Site.Accepted.isolate {site : Site} (accepted : site.Accepted) (place : FunctionPlace) :
    (site.isolate place).Accepted := by
  obtain ⟨checked, accepted⟩ := accepted
  unfold Site.isolate Site.Accepted
  dsimp only
  split
  · exact ⟨checked, accepted⟩
  · cases function : site.decl with
    | object declaration => exact ⟨_, rfl⟩
    | function declaration =>
      rw [function] at accepted
      cases environment : site.environment with
      | error error =>
        rw [environment] at accepted
        cases accepted
      | ok environment => exact ⟨_, rfl⟩

theorem Decl.function?_checkBody {environment : Except Error Environment} {decl checked : Decl}
    (accepted : decl.checkBody environment = .ok checked) :
    checked.function?.isSome = decl.function?.isSome := by
  cases decl with
  | object declaration =>
    cases accepted
    rfl
  | function declaration =>
    cases environment with
    | error error => cases accepted
    | ok environment =>
      rw [checkBody_function] at accepted
      split at accepted <;> cases accepted
      rfl

section Functions

variable {sites checked isolated : List Site} {place : FunctionPlace}

theorem Site.ChecksTo.isSome_functionAt? {site after : Site} (checks : site.ChecksTo after) (place : FunctionPlace) :
    (after.functionAt? place).isSome = (site.functionAt? place).isSome := by
  obtain ⟨same, done⟩ := checks
  unfold functionAt?
  rw [same]
  split
  · exact Decl.function?_checkBody done
  · rfl

theorem Site.ChecksTo.functionAt?_isolate {site after alone : Site} (checks : site.ChecksTo after)
    (checksAlone : (site.isolate place).ChecksTo alone) :
    alone.functionAt? place = after.functionAt? place := by
  obtain ⟨same, done⟩ := checks
  obtain ⟨sameAlone, doneAlone⟩ := checksAlone
  change alone.place = site.place at sameAlone
  unfold functionAt?
  rw [same, sameAlone]
  by_cases here : site.place = place
  · have left : (site.isolate place).decl = site.decl := if_pos here.symm
    rw [left] at doneAlone
    rw [Except.ok.inj (doneAlone.symm.trans done)]
  · rw [if_neg here, if_neg here]

theorem isSome_functionAt?_checksTo (each : List.Forall₂ Site.ChecksTo sites checked) :
    (checked.findSome? (Site.functionAt? place)).isSome =
      (sites.findSome? (Site.functionAt? place)).isSome := by
  induction each with
  | nil => rfl
  | @cons site after _ _ first _ ih =>
    have same := first.isSome_functionAt? place
    rw [List.findSome?_cons, List.findSome?_cons]
    cases found : site.functionAt? place with
    | none =>
      rw [found, Option.isSome_none, Option.isSome_eq_false_iff, Option.isNone_iff_eq_none] at same
      rw [same]
      exact ih
    | some declaration =>
      rw [found, Option.isSome_some] at same
      obtain ⟨decorated, same⟩ := Option.isSome_iff_exists.mp same
      rw [same]
      rfl

theorem functionAt?_isolate_checksTo (each : List.Forall₂ Site.ChecksTo sites checked)
    (alone : List.Forall₂ Site.ChecksTo (sites.map (Site.isolate place)) isolated) :
    isolated.findSome? (Site.functionAt? place) = checked.findSome? (Site.functionAt? place) := by
  induction each generalizing isolated with
  | nil =>
    cases alone
    rfl
  | cons first _ ih =>
    cases alone with
    | cons firstAlone othersAlone =>
      rw [List.findSome?_cons, List.findSome?_cons, first.functionAt?_isolate firstAlone, ih othersAlone]

end Functions

theorem Program.accepted_iff_sites {program : Program} (coherent : program.Coherent) :
    program.Accepted ↔
      (∃ later, DeclaredTypes.meetAll {} ((program.sites none).flatMap fun site => site.decl.typeEvents) =
        .ok later) ∧ ∀ site ∈ program.sites none, site.Accepted := by
  rw [← checkBodiesApart_iff_sites, ← typeEventsApart_eq, Accepted, check_eq_checkApart coherent]
  constructor
  · rintro ⟨checked, accepted⟩
    obtain ⟨later, met, bodies⟩ := bind_eq_ok_iff.mp accepted
    exact ⟨⟨later, met⟩, checked, bodies⟩
  · rintro ⟨⟨later, met⟩, checked, bodies⟩
    exact ⟨checked, bind_eq_ok_iff.mpr ⟨later, met, bodies⟩⟩

theorem Program.checkTypeDeclarations_iff_sites {program : Program} (coherent : program.Coherent) :
    program.checkTypeDeclarations = .ok () ↔
      ∃ later, DeclaredTypes.meetAll {} ((program.sites none).flatMap fun site => site.decl.typeEvents) =
        .ok later := by
  have events := (program.walksAs coherent (List.Subset.refl _) [] {} fun _ _ seen => (nomatch seen)).1
  rw [checkTypeDeclarations, events, ← typeEventsApart_eq, bind_eq_ok_iff]
  exact exists_congr fun later => and_iff_left rfl

theorem Program.isSome_functionAt?_iff (program : Program) (place : FunctionPlace) :
    (program.functionAt? place).isSome = true ↔
      ∃ site ∈ program.sites none, site.place = place ∧ site.decl.function?.isSome = true := by
  rw [functionAt?, List.findSome?_isSome_iff]
  refine exists_congr fun site => and_congr_right fun _ => ?_
  unfold Site.functionAt?
  split
  next same => simp [same]
  next other => simp [other]

section Isolated

variable {program : Program}

theorem Program.accepted_isolated_iff_sites (coherent : program.Coherent) (place : FunctionPlace) :
    (program.isolated place).Accepted ↔
      (∃ later, DeclaredTypes.meetAll {} (((program.sites none).map (Site.isolate place)).flatMap
        fun site => site.decl.typeEvents) = .ok later) ∧
        ∀ site ∈ program.sites none, (site.isolate place).Accepted := by
  rw [accepted_iff_sites (coherent.isolated place), isolated, sites_isolate, List.forall_mem_map]

theorem Program.accepted_of_no_function (coherent : program.Coherent)
    (noFunction : ∀ place, program.functionAt? place = none) :
    program.Accepted ↔ program.checkTypeDeclarations = .ok () := by
  rw [accepted_iff_sites coherent, checkTypeDeclarations_iff_sites coherent, and_iff_left_iff_imp]
  intro _ site member
  cases decl : site.decl with
  | object declaration => exact ⟨.object declaration, by rw [decl]; rfl⟩
  | function declaration =>
    have found := (program.isSome_functionAt?_iff site.place).mpr ⟨site, member, rfl, by rw [decl]; rfl⟩
    rw [noFunction site.place] at found
    cases found

theorem Program.accepted_iff_isolated (coherent : program.Coherent)
    (someFunction : ∃ place, (program.functionAt? place).isSome = true) :
    program.Accepted ↔
      ∀ place, (program.functionAt? place).isSome = true → (program.isolated place).Accepted := by
  have found := fun site member function =>
    (program.isSome_functionAt?_iff site.place).mpr ⟨site, member, rfl, function⟩
  rw [accepted_iff_sites coherent, DeclaredTypes.meetAll_sites_iff
    (fun place => (program.functionAt? place).isSome = true) someFunction (program.sites none) found]
  simp only [accepted_isolated_iff_sites coherent]
  constructor
  · rintro ⟨met, bodies⟩ place function
    exact ⟨met place function, fun site member => (bodies site member).isolate place⟩
  · intro each
    refine ⟨fun place function => (each place function).left, ?_⟩
    intro site member
    cases decl : site.decl with
    | object declaration => exact ⟨.object declaration, by rw [decl]; rfl⟩
    | function declaration =>
      -- the body at this very site is left at its own place
      have left : site.isolate site.place = site := by simp only [Site.isolate, if_true]
      have accepted := (each site.place (found site member (by rw [decl]; rfl))).right site member
      rw [left] at accepted
      exact accepted

theorem Program.functionAt?_check_isolated {checked alone : Program} (coherent : program.Coherent)
    (accepted : program.check = .ok checked) {place : FunctionPlace}
    (acceptedAlone : (program.isolated place).check = .ok alone) :
    alone.functionAt? place = checked.functionAt? place ∧
      (checked.functionAt? place).isSome = (program.functionAt? place).isSome := by
  have bodies := program.sites_checksTo none checked (checkBodiesApart_of_check coherent accepted)
  have bodiesAlone := (program.isolated place).sites_checksTo none alone
    (checkBodiesApart_of_check (coherent.isolated place) acceptedAlone)
  rw [isolated, sites_isolate] at bodiesAlone
  exact ⟨functionAt?_isolate_checksTo bodies bodiesAlone, isSome_functionAt?_checksTo bodies⟩

end Isolated

/-- A program with functions is accepted exactly if it is with every body emptied but one, for each of
them; a program without functions is as soon as its types are declared. Among all others, a function is
decorated as it is alone. -/
theorem Program.check_isolated {program : Program} (coherent : program.Coherent) :
    ((∀ place, program.functionAt? place = none) →
      (program.Accepted ↔ program.checkTypeDeclarations = .ok ())) ∧
    ((∃ place, (program.functionAt? place).isSome = true) →
      (program.Accepted ↔
        ∀ place, (program.functionAt? place).isSome = true → (program.isolated place).Accepted)) ∧
    ∀ checked, program.check = .ok checked → ∀ place, (program.functionAt? place).isSome = true →
      ∃ alone decorated, (program.isolated place).check = .ok alone ∧
        checked.functionAt? place = some decorated ∧ alone.functionAt? place = some decorated := by
  refine ⟨accepted_of_no_function coherent, accepted_iff_isolated coherent, ?_⟩
  intro checked accepted place function
  obtain ⟨alone, acceptedAlone⟩ :=
    (accepted_iff_isolated coherent ⟨place, function⟩).mp ⟨checked, accepted⟩ place function
  obtain ⟨same, there⟩ := functionAt?_check_isolated coherent accepted acceptedAlone
  rw [function] at there
  obtain ⟨decorated, found⟩ := Option.isSome_iff_exists.mp there
  exact ⟨alone, decorated, acceptedAlone, found, same.trans found⟩

/-- Two functions with a variable of one name, one of them behind an import, are accepted because each of
them is. -/
theorem Program.check_isolated_shadowing :
    let body := fun type => [Stmt.declare "value" type none]
    let helper := FunctionDecl.mk true "helper" .void [] (body .string)
    let main := FunctionDecl.mk false "main" .void [] (body .int32)
    let library := Program.mk [] [.function helper]
    let program : Program := ⟨[⟨"library", some ⟨0, library⟩⟩], [.function main]⟩
    program.Coherent ∧ (program.functionAt? ⟨none, 0⟩).isSome = true ∧
      ∃ checked, program.check = .ok checked ∧ ∃ alone decorated,
        (program.isolated ⟨none, 0⟩).check = .ok alone ∧
        checked.functionAt? ⟨none, 0⟩ = some decorated ∧ alone.functionAt? ⟨none, 0⟩ = some decorated := by
  intro body helper main library program
  have coherent : program.Coherent := by
    intro left leftIn right rightIn _
    have modules : program.modules = [⟨0, library⟩] := rfl
    rw [modules, List.mem_singleton] at leftIn rightIn
    rw [leftIn, rightIn]
  exact ⟨coherent, rfl, _, rfl, (Program.check_isolated coherent).2.2 _ rfl ⟨none, 0⟩ rfl⟩

end TypedTree
