import TypedTree.Proofs.Check.Decision
import TypedTree.Proofs.Check.Declared
/-! Modules are checked one by one. A program that passes the check passes it behind any import too, and
with the same result, so that what is wrong with an importing program is wrong in its own declarations. -/

namespace TypedTree

namespace DeclaredTypes

variable {declared more later : DeclaredTypes} {events : List TypeEvent} {error : Error}

def Within (declared more : DeclaredTypes) : Prop :=
  ∀ name, declared.contains name = true → more.contains name = true

theorem meet_within {event : TypeEvent} (within : declared.Within more)
    (met : declared.meet event = .ok later) : ∃ final, more.meet event = .ok final ∧ later.Within final := by
  cases event with
  | declares name =>
    cases met
    refine ⟨more.register name, rfl, ?_⟩
    intro other known
    rw [contains_register, Bool.or_eq_true] at known ⊢
    exact known.imp_right (within other)
  | uses name =>
    simp only [meet] at met ⊢
    split at met
    next known =>
      cases met
      exact ⟨more, if_pos (within name known), within⟩
    next => cases met

theorem meetAll_within (within : declared.Within more) (met : declared.meetAll events = .ok later) :
    ∃ final, more.meetAll events = .ok final ∧ later.Within final := by
  induction events generalizing declared more with
  | nil =>
    cases met
    exact ⟨more, rfl, within⟩
  | cons event events ih =>
    rw [meetAll_cons, bind_eq_ok_iff] at met
    obtain ⟨middle, first, rest⟩ := met
    obtain ⟨wider, firstMore, withinMore⟩ := meet_within within first
    obtain ⟨final, restMore, withinFinal⟩ := ih withinMore rest
    refine ⟨final, ?_, withinFinal⟩
    rw [meetAll_cons, firstMore]
    exact restMore

/-- Only a name that the events use can be found undeclared. -/
theorem meetAll_error (failed : declared.meetAll events = .error error) :
    ∃ name, error = .undeclaredType name ∧ .uses name ∈ events := by
  induction events generalizing declared with
  | nil => cases failed
  | cons event events ih =>
    rw [meetAll_cons] at failed
    cases first : declared.meet event with
    | ok middle =>
      rw [first] at failed
      obtain ⟨name, same, member⟩ := ih failed
      exact ⟨name, same, List.mem_cons_of_mem _ member⟩
    | error found =>
      rw [first] at failed
      cases failed
      cases event with
      | declares name => cases first
      | uses name =>
        simp only [meet] at first
        split at first
        · cases first
        · cases first
          exact ⟨name, rfl, List.mem_cons_self⟩

end DeclaredTypes

theorem mapM_eq_error {ε α β : Type} {step : α → Except ε β} {values : List α} {error : ε}
    (failed : values.mapM step = .error error) : ∃ value ∈ values, step value = .error error := by
  induction values with
  | nil => cases failed
  | cons value values ih =>
    rw [List.mapM_cons] at failed
    cases first : step value with
    | error found =>
      rw [first] at failed
      cases failed
      exact ⟨value, List.mem_cons_self, first⟩
    | ok result =>
      rw [first] at failed
      cases rest : values.mapM step with
      | ok results =>
        rw [rest] at failed
        cases failed
      | error found =>
        rw [rest] at failed
        cases failed
        obtain ⟨other, member, same⟩ := ih rest
        exact ⟨other, List.mem_cons_of_mem _ member, same⟩

theorem Decl.checkBody_error {environment : Environment} {decl : Decl} {error : Error}
    (failed : checkBody (.ok environment) decl = .error error) :
    ∃ declaration, decl = .function declaration ∧
      ∃ problem, ((Context.ofEnvironment environment).checkFunction declaration).1.outcome = .error problem ∧
        error = .semantic problem := by
  cases decl with
  | object declaration => cases failed
  | function declaration =>
    rw [checkBody_function] at failed
    split at failed
    next problem judged =>
      cases failed
      exact ⟨declaration, rfl, problem, judged, rfl⟩
    next => cases failed

theorem Program.Coherent.behindImport {program : Program} (coherent : program.Coherent) {entry : Import}
    (member : entry ∈ program.imports) {shared : Module} (target : entry.target = some shared) :
    shared.program.Coherent := by
  apply coherent.shared
  obtain ⟨imports, decls⟩ := program
  obtain ⟨path, _⟩ := entry
  cases shared
  cases target
  exact Import.modules_subset member List.mem_cons_self

def Program.Accepted (program : Program) : Prop := ∃ checked, program.check = .ok checked

/-- Every import has a program that passes the check on its own. -/
def Program.ImportsAccepted (program : Program) : Prop :=
  ∀ entry ∈ program.imports, ∃ shared, entry.target = some shared ∧ shared.program.Accepted

/-- The second import is the first one with the result of a check of its program on its own. -/
def Import.CheckedAlone (entry checked : Import) : Prop :=
  ∃ shared, entry.target = some shared ∧ ∃ inside, shared.program.check = .ok inside ∧
    checked = ⟨entry.path, some ⟨shared.id, inside⟩⟩

section Imports

variable {imports : List Import}

theorem importsTypeEventsApart_accepted
    (alone : ∀ entry ∈ imports, ∃ shared, entry.target = some shared ∧
      ∃ later, DeclaredTypes.meetAll {} shared.program.typeEventsApart = .ok later)
    (declared : DeclaredTypes) (builtin : DeclaredTypes.Within {} declared) :
    ∃ later, declared.meetAll (importsTypeEventsApart imports) = .ok later := by
  induction imports generalizing declared with
  | nil => exact ⟨declared, rfl⟩
  | cons entry imports ih =>
    obtain ⟨⟨shared, target, _, met⟩, others⟩ := List.forall_mem_cons.mp alone
    obtain ⟨later, first, _⟩ := DeclaredTypes.meetAll_within builtin met
    have grown := (DeclaredTypes.meetAll_ok first).right
    obtain ⟨final, rest⟩ := ih others later fun name known => grown name (builtin name known)
    refine ⟨final, ?_⟩
    have events : Import.typeEventsApart entry = shared.program.typeEventsApart := by
      obtain ⟨path, _⟩ := entry
      obtain ⟨id, program⟩ := shared
      cases target
      rfl
    rw [importsTypeEventsApart, events, DeclaredTypes.meetAll_append, first]
    exact rest

theorem importsCheckBodiesApart_accepted
    (alone : ∀ entry ∈ imports, ∃ shared, entry.target = some shared ∧ shared.program.Coherent ∧
      shared.program.Accepted) :
    ∃ checked, importsCheckBodiesApart imports = .ok checked ∧
      List.Forall₂ Import.CheckedAlone imports checked := by
  induction imports with
  | nil => exact ⟨[], rfl, .nil⟩
  | cons entry imports ih =>
    obtain ⟨⟨shared, target, coherent, inside, accepted⟩, others⟩ := List.forall_mem_cons.mp alone
    obtain ⟨rest, restDone, restAlone⟩ := ih others
    refine ⟨⟨entry.path, some ⟨shared.id, inside⟩⟩ :: rest, ?_,
      .cons ⟨shared, target, inside, accepted, rfl⟩ restAlone⟩
    rw [importsCheckBodiesApart_cons_eq_ok_iff]
    refine ⟨_, rest, ?_, restDone, rfl⟩
    obtain ⟨path, _⟩ := entry
    obtain ⟨id, program⟩ := shared
    cases target
    rw [Import.checkBodiesApart_resolved_eq_ok_iff]
    exact ⟨inside, Program.checkBodiesApart_of_check coherent accepted, rfl⟩

end Imports

/-- Where the programs behind all imports pass the check on their own, a checked program holds the results
of these checks, and an error is about a type that its own declarations name, or the problem of a function
of its own in its own environment. -/
theorem Program.check_modular {program : Program} (coherent : program.Coherent)
    (alone : program.ImportsAccepted) :
    (∀ checked, program.check = .ok checked →
      List.Forall₂ Import.CheckedAlone program.imports checked.imports) ∧
    ∀ error, program.check = .error error →
      (∃ name, error = .undeclaredType name ∧ .uses name ∈ program.decls.flatMap Decl.typeEvents) ∨
        ∃ environment declaration problem, Environment.ofProgram program = .ok environment ∧
          .function declaration ∈ program.decls ∧
          ((Context.ofEnvironment environment).checkFunction declaration).1.outcome = .error problem ∧
          error = .semantic problem := by
  have resolved : program.Resolved := by
    intro entry member
    obtain ⟨shared, target, _⟩ := alone entry member
    rw [target]
    rfl
  have environment := Environment.ofProgram_of_resolved resolved
  obtain ⟨checkedImports, importsDone, checkedAlone⟩ :=
    importsCheckBodiesApart_accepted fun entry member => by
      obtain ⟨shared, target, accepted⟩ := alone entry member
      exact ⟨shared, target, coherent.behindImport member target, accepted⟩
  have importsAccepted : ∀ entry ∈ program.imports, ∃ shared, entry.target = some shared ∧
      ∃ later, DeclaredTypes.meetAll {} shared.program.typeEventsApart = .ok later := by
    intro entry member
    obtain ⟨shared, target, checked, accepted⟩ := alone entry member
    rw [check_eq_checkApart (coherent.behindImport member target), checkApart, bind_eq_ok_iff] at accepted
    obtain ⟨later, met, _⟩ := accepted
    exact ⟨shared, target, later, met⟩
  -- both passes get through all imports, so that an error can only arise behind them
  obtain ⟨declared, importsMet⟩ := importsTypeEventsApart_accepted importsAccepted {} fun _ known => known
  obtain ⟨imports, decls⟩ := program
  rw [check_eq_checkApart coherent, checkApart, typeEventsApart, DeclaredTypes.meetAll_append, importsMet]
  refine ⟨?_, ?_⟩
  · intro checked accepted
    obtain ⟨_, _, bodies⟩ := bind_eq_ok_iff.mp accepted
    obtain ⟨_, _, done, _, rfl⟩ := (checkBodiesApart_eq_ok_iff imports decls checked).mp bodies
    cases importsDone.symm.trans done
    exact checkedAlone
  · intro error failed
    change (declared.meetAll (decls.flatMap Decl.typeEvents) >>= fun _ => _) = _ at failed
    cases met : declared.meetAll (decls.flatMap Decl.typeEvents) with
    | error found =>
      rw [met] at failed
      cases failed
      exact .inl (DeclaredTypes.meetAll_error met)
    | ok later =>
      rw [met] at failed
      simp only [checkBodiesApart, importsDone] at failed
      change (decls.mapM (Decl.checkBody (Environment.ofProgram ⟨imports, decls⟩)) >>= fun _ => _) = _
        at failed
      cases bodies : decls.mapM (Decl.checkBody (Environment.ofProgram ⟨imports, decls⟩)) with
      | ok checkedDecls =>
        rw [bodies] at failed
        cases failed
      | error found =>
        rw [bodies] at failed
        cases failed
        obtain ⟨decl, member, failed⟩ := mapM_eq_error bodies
        rw [environment] at failed
        obtain ⟨declaration, rfl, problem, outcome, rfl⟩ := Decl.checkBody_error failed
        exact .inr ⟨_, declaration, problem, environment, member, outcome, rfl⟩

/-- Behind an import stands what the module is when it is checked on its own, though the importing program
declares an object of a name that the module declares too. -/
theorem Program.check_modular_redeclared :
    let greet := FunctionDecl.mk true "greet" .void [] [.declare "count" .int32 (some (.int 1 none))]
    let shape := fun exported => Decl.object { exported, name := "Shape" }
    let library := Program.mk [] [shape false, .function greet]
    let main := FunctionDecl.mk false "main" .void [⟨"shape", .scalar "Shape"⟩] [.call (.var "greet" none) [] none]
    let program : Program := ⟨[⟨"library", some ⟨0, library⟩⟩], [shape true, .function main]⟩
    program.Coherent ∧ program.ImportsAccepted ∧ ∃ checked, program.check = .ok checked ∧
      List.Forall₂ Import.CheckedAlone program.imports checked.imports := by
  intro greet shape library main program
  have coherent : program.Coherent := by
    intro left leftIn right rightIn _
    have modules : program.modules = [⟨0, library⟩] := rfl
    rw [modules, List.mem_singleton] at leftIn rightIn
    rw [leftIn, rightIn]
  have alone : program.ImportsAccepted := List.forall_mem_singleton.mpr ⟨⟨0, library⟩, rfl, _, rfl⟩
  exact ⟨coherent, alone, _, rfl, (Program.check_modular coherent alone).left _ rfl⟩

end TypedTree
