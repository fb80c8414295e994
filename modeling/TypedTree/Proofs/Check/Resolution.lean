import TypedTree.Proofs.Check.Independence
/-! Imports without a program. They matter to functions only: a check asks for the programs behind the
imports when it meets a function beside them, and a program without functions may leave them open. -/

namespace TypedTree

def Program.programs (program : Program) : List Program :=
  program :: program.modules.map Module.program

section Programs

theorem forall_importsModules_iff (holds : Program → Prop) (imports : List Import) :
    (∀ shared ∈ importsModules imports, holds shared.program) ↔
      ∀ entry ∈ imports, ∀ shared, entry.target = some shared →
        ∀ inside ∈ shared.program.programs, holds inside := by
  induction imports with
  | nil => simp [importsModules]
  | cons entry imports ih =>
    obtain ⟨path, target⟩ := entry
    cases target with
    | none => simp [importsModules, Import.modules, targetModules, ih]
    | some shared =>
      obtain ⟨id, program⟩ := shared
      simp only [importsModules, Import.modules, targetModules, Module.modules, Program.programs,
        List.forall_mem_append, List.forall_mem_cons, List.forall_mem_map, ih, Option.some.injEq, forall_eq']

theorem Program.forall_programs_iff (holds : Program → Prop) (program : Program) :
    (∀ inside ∈ program.programs, holds inside) ↔
      holds program ∧ ∀ entry ∈ program.imports, ∀ shared, entry.target = some shared →
        ∀ inside ∈ shared.program.programs, holds inside := by
  obtain ⟨imports, decls⟩ := program
  rw [programs, List.forall_mem_cons, List.forall_mem_map, modules, forall_importsModules_iff]

theorem Program.self_mem_programs (program : Program) : program ∈ program.programs := List.mem_cons_self

theorem Program.mem_programs_of_import {program : Program} {entry : Import} (member : entry ∈ program.imports)
    {shared : Module} (target : entry.target = some shared) {inside : Program}
    (below : inside ∈ shared.program.programs) : inside ∈ program.programs :=
  ((forall_programs_iff (· ∈ program.programs) program).mp fun _ found => found).right
    entry member shared target inside below

theorem forall_importsSites_iff (holds : Site → Prop) (imports : List Import) :
    (∀ site ∈ importsSites imports, holds site) ↔
      ∀ entry ∈ imports, ∀ shared, entry.target = some shared →
        ∀ site ∈ shared.program.sites (some shared.id), holds site := by
  induction imports with
  | nil => simp [importsSites]
  | cons entry imports ih =>
    obtain ⟨path, target⟩ := entry
    cases target with
    | none => simp [importsSites, Import.sites, targetSites, ih]
    | some shared =>
      obtain ⟨id, program⟩ := shared
      simp [importsSites, Import.sites, targetSites, Module.sites, or_imp, forall_and, ih]

theorem Program.forall_ownSites_iff (holds : Except Error Environment → Decl → Prop) (home : Option Nat)
    (program : Program) :
    (∀ site ∈ Program.ownSites home program, holds site.environment site.decl) ↔
      ∀ decl ∈ program.decls, holds (Environment.ofProgram program) decl := by
  simp only [ownSites, List.mem_mapIdx]
  constructor
  · intro each decl member
    obtain ⟨index, bound, rfl⟩ := List.mem_iff_getElem.mp member
    exact each _ ⟨index, bound, rfl⟩
  · rintro each site ⟨index, bound, rfl⟩
    exact each _ (List.getElem_mem bound)

theorem Program.forall_sites_iff (holds : Except Error Environment → Decl → Prop) (home : Option Nat)
    (program : Program) :
    (∀ site ∈ program.sites home, holds site.environment site.decl) ↔
      ∀ inside ∈ program.programs, ∀ decl ∈ inside.decls, holds (Environment.ofProgram inside) decl := by
  induction program using Program.importInduction generalizing home with
  | step imports decls below =>
    rw [forall_programs_iff, sites, List.forall_mem_append, forall_ownSites_iff, forall_importsSites_iff,
      and_comm]
    refine and_congr_right fun _ => ?_
    refine forall₂_congr fun entry member => forall₂_congr fun shared target => ?_
    exact below entry member shared target (some shared.id)

end Programs

section Imports

theorem Environment.importAll_eq_error_iff (environment : Environment) (imports : List Import)
    (error : Error) :
    environment.importAll imports = .error error ↔
      ∃ entry, imports.find? (fun entry => entry.target.isNone) = some entry ∧
        error = .unresolvedImport entry.path := by
  induction imports generalizing environment with
  | nil => simp [importAll]
  | cons entry imports ih =>
    obtain ⟨path, target⟩ := entry
    cases target with
    | none => simp [importAll, eq_comm]
    | some shared => simp [importAll, ih]

/-- Only an import without a program keeps a program from having an environment, and the first one is
reported. -/
theorem Environment.ofProgram_eq_error_iff (program : Program) (error : Error) :
    ofProgram program = .error error ↔
      ∃ entry, program.imports.find? (fun entry => entry.target.isNone) = some entry ∧
        error = .unresolvedImport entry.path := by
  rw [← importAll_eq_error_iff {}]
  unfold ofProgram
  cases importAll {} program.imports with
  | error found => exact Iff.rfl
  | ok imported => exact ⟨fun same => (nomatch same), fun same => (nomatch same)⟩

theorem Program.resolved_iff_find? (program : Program) :
    program.Resolved ↔ program.imports.find? (fun entry => entry.target.isNone) = none := by
  simp [Resolved, List.find?_eq_none, Option.isSome_iff_ne_none]

theorem Environment.ofProgram_eq_ok_iff (program : Program) (environment : Environment) :
    ofProgram program = .ok environment ↔
      program.Resolved ∧ environment = declareAll {} program.visible := by
  constructor
  · intro built
    have resolved : program.Resolved := by
      rw [Program.resolved_iff_find?]
      cases found : program.imports.find? (fun entry => entry.target.isNone) with
      | none => rfl
      | some entry => cases built.symm.trans ((ofProgram_eq_error_iff program _).mpr ⟨entry, found, rfl⟩)
    rw [ofProgram_of_resolved resolved] at built
    exact ⟨resolved, (Except.ok.inj built).symm⟩
  · rintro ⟨resolved, rfl⟩
    exact ofProgram_of_resolved resolved

end Imports

section Bodies

theorem FunctionDecl.verdict_eq_ok_iff (program : Program) (declaration : FunctionDecl) :
    declaration.verdict (.declareAll {} program.visible) = .ok () ↔ declaration.WellTyped program := by
  rw [verdict, WellTyped, ← declaration.lookup_scopes, ← program.properties_visible]
  simp only [linesTyped_iff]
  constructor
  · intro accepted
    exact ⟨_, accepted, rfl⟩
  · rintro ⟨_, accepted, _⟩
    exact accepted

theorem Decl.checkBody_accepted_iff (program : Program) (decl : Decl) :
    (∃ checked, decl.checkBody (Environment.ofProgram program) = .ok checked) ↔
      ∀ declaration, decl = .function declaration →
        program.Resolved ∧ declaration.WellTyped program := by
  cases decl with
  | object declaration => exact ⟨fun _ _ same => (nomatch same), fun _ => ⟨_, rfl⟩⟩
  | function declaration =>
    simp only [Decl.function.injEq, forall_eq']
    cases built : Environment.ofProgram program with
    | error error =>
      have unresolved : ¬ program.Resolved := by
        intro resolved
        cases built.symm.trans (Environment.ofProgram_of_resolved resolved)
      exact ⟨fun ⟨_, same⟩ => (nomatch same), fun typed => absurd typed.left unresolved⟩
    | ok environment =>
      obtain ⟨resolved, rfl⟩ := (Environment.ofProgram_eq_ok_iff program environment).mp built
      rw [← FunctionDecl.verdict_eq_ok_iff, checkBody_function]
      cases declaration.verdict (.declareAll {} program.visible) with
      | error problem => exact ⟨fun ⟨_, same⟩ => (nomatch same), fun typed => (nomatch typed.right)⟩
      | ok accepted => exact ⟨fun _ => ⟨resolved, rfl⟩, fun _ => ⟨_, rfl⟩⟩

theorem importsCheckBodiesApart_eq_error {imports : List Import} {error : Error}
    (failed : importsCheckBodiesApart imports = .error error) :
    ∃ entry ∈ imports, ∃ shared, entry.target = some shared ∧
      shared.program.checkBodiesApart = .error error := by
  induction imports with
  | nil => cases failed
  | cons entry imports ih =>
    rw [importsCheckBodiesApart] at failed
    cases first : Import.checkBodiesApart entry with
    | ok checked =>
      rw [first] at failed
      cases rest : importsCheckBodiesApart imports with
      | ok others =>
        rw [rest] at failed
        cases failed
      | error found =>
        rw [rest] at failed
        cases failed
        obtain ⟨other, member, shared, target, below⟩ := ih rest
        exact ⟨other, List.mem_cons_of_mem _ member, shared, target, below⟩
    | error found =>
      rw [first] at failed
      cases failed
      match entry with
      | ⟨path, none⟩ => cases first
      | ⟨path, some ⟨id, program⟩⟩ =>
        refine ⟨_, List.mem_cons_self, ⟨id, program⟩, rfl, ?_⟩
        simp only [Import.checkBodiesApart, targetCheckBodiesApart, Module.checkBodiesApart] at first
        cases below : program.checkBodiesApart with
        | ok inside =>
          rw [below] at first
          cases first
        | error found =>
          rw [below] at first
          cases first
          rfl

theorem Program.checkBodiesApart_eq_error {program : Program} {error : Error}
    (failed : program.checkBodiesApart = .error error) :
    ∃ inside ∈ program.programs, ∃ decl ∈ inside.decls,
      decl.checkBody (Environment.ofProgram inside) = .error error := by
  induction program using Program.importInduction with
  | step imports decls below =>
    rw [checkBodiesApart] at failed
    cases behind : importsCheckBodiesApart imports with
    | error found =>
      rw [behind] at failed
      cases failed
      obtain ⟨entry, member, shared, target, failedBelow⟩ := importsCheckBodiesApart_eq_error behind
      obtain ⟨inside, reached, decl, declared, refused⟩ := below entry member shared target failedBelow
      exact ⟨inside, mem_programs_of_import member target reached, decl, declared, refused⟩
    | ok checkedImports =>
      rw [behind] at failed
      change (decls.mapM (Decl.checkBody (Environment.ofProgram ⟨imports, decls⟩)) >>= fun _ => _) = _
        at failed
      cases own : decls.mapM (Decl.checkBody (Environment.ofProgram ⟨imports, decls⟩)) with
      | ok checkedDecls =>
        rw [own] at failed
        cases failed
      | error found =>
        rw [own] at failed
        cases failed
        obtain ⟨decl, member, refused⟩ := mapM_eq_error own
        exact ⟨_, self_mem_programs _, decl, member, refused⟩

end Bodies

theorem Program.accepted_iff_programs {program : Program} (coherent : program.Coherent) :
    program.Accepted ↔ program.checkTypeDeclarations = .ok () ∧
      ∀ inside ∈ program.programs, ∀ declaration, .function declaration ∈ inside.decls →
        inside.Resolved ∧ declaration.WellTyped inside := by
  have bodies := program.forall_sites_iff
    (fun environment decl => ∃ checked, decl.checkBody environment = .ok checked) none
  simp only [Decl.checkBody_accepted_iff] at bodies
  rw [accepted_iff_sites coherent, checkTypeDeclarations_iff_sites coherent]
  refine and_congr_right fun _ => bodies.trans ?_
  refine forall₂_congr fun inside _ => ?_
  exact ⟨fun each declaration member => each _ member declaration rfl,
    fun each decl member declaration same => each declaration (same ▸ member)⟩

theorem Program.check_eq_unresolved {program : Program} (coherent : program.Coherent) {path : String}
    (failed : program.check = .error (.unresolvedImport path)) :
    ∃ inside ∈ program.programs, (∃ declaration, .function declaration ∈ inside.decls) ∧
      ∃ entry, inside.imports.find? (fun entry => entry.target.isNone) = some entry ∧
        entry.path = path := by
  rw [check_eq_checkApart coherent, checkApart] at failed
  cases met : DeclaredTypes.meetAll {} program.typeEventsApart with
  | error error =>
    obtain ⟨name, rfl, _⟩ := DeclaredTypes.meetAll_error met
    rw [met] at failed
    cases failed
  | ok declared =>
    rw [met] at failed
    obtain ⟨inside, reached, decl, member, refused⟩ := checkBodiesApart_eq_error failed
    cases decl with
    | object declaration => cases refused
    | function declaration =>
      refine ⟨inside, reached, ⟨declaration, member⟩, ?_⟩
      cases built : Environment.ofProgram inside with
      | error error =>
        rw [built] at refused
        cases refused
        obtain ⟨entry, first, same⟩ := (Environment.ofProgram_eq_error_iff inside _).mp built
        exact ⟨entry, first, (Error.unresolvedImport.inj same).symm⟩
      | ok environment =>
        rw [built] at refused
        obtain ⟨_, _, _, _, same⟩ := Decl.checkBody_error refused
        cases same

/-- A check accepts a program exactly if its types are declared before they are used and, in the program
and in every program it imports, the imports beside functions are resolved and the functions are well typed.
An import is reported as unresolved only where it is the first one beside a function. -/
theorem Program.check_resolved {program : Program} (coherent : program.Coherent) :
    (program.Accepted ↔ program.checkTypeDeclarations = .ok () ∧
      (∀ inside ∈ program.programs, (∃ declaration, .function declaration ∈ inside.decls) →
        inside.Resolved) ∧
      ∀ inside ∈ program.programs, ∀ declaration, .function declaration ∈ inside.decls →
        declaration.WellTyped inside) ∧
    ∀ path, program.check = .error (.unresolvedImport path) →
      ∃ inside ∈ program.programs, (∃ declaration, .function declaration ∈ inside.decls) ∧
        ∃ entry, inside.imports.find? (fun entry => entry.target.isNone) = some entry ∧
          entry.path = path := by
  refine ⟨?_, fun path failed => check_eq_unresolved coherent failed⟩
  rw [accepted_iff_programs coherent]
  refine and_congr_right fun _ => ⟨?_, ?_⟩
  · intro each
    exact ⟨fun inside reached ⟨declaration, member⟩ => (each inside reached declaration member).left,
      fun inside reached declaration member => (each inside reached declaration member).right⟩
  · rintro ⟨resolved, typed⟩ inside reached declaration member
    exact ⟨resolved inside reached ⟨declaration, member⟩, typed inside reached declaration member⟩

/-- The import of an object needs no program to be behind it: a program that only declares objects is accepted
with an import that is open, and so is a program with functions that imports it. -/
theorem Program.check_resolved_beside :
    let shapes := Program.mk [⟨"missing", none⟩] [.object { exported := true, name := "Shape" }]
    let draw := FunctionDecl.mk false "draw" .void [⟨"shape", .scalar "Shape"⟩] []
    let program : Program := ⟨[⟨"shapes", some ⟨0, shapes⟩⟩], [.function draw]⟩
    program.Coherent ∧ program.Accepted ∧
      ∀ inside ∈ program.programs, (∃ declaration, .function declaration ∈ inside.decls) →
        inside.Resolved := by
  intro shapes draw program
  have coherent : program.Coherent := Program.coherent_of_nodup (by decide)
  have accepted : program.Accepted := ⟨_, rfl⟩
  exact ⟨coherent, accepted, ((Program.check_resolved coherent).left.mp accepted).right.left⟩

/-- An open import of a program without functions goes unnoticed. -/
theorem Program.check_open :
    let program : Program := ⟨[⟨"missing", none⟩], []⟩
    program.check = .ok program ∧ ¬ ∀ inside ∈ program.programs, inside.Resolved := by
  intro program
  refine ⟨rfl, fun resolved => ?_⟩
  have closed := resolved program program.self_mem_programs _ List.mem_cons_self
  cases closed

end TypedTree
