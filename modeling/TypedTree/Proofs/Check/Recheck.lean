import TypedTree.Proofs.Check.Verdict
import TypedTree.Proofs.Check.Sharing
/-! Checking a tree again. A check reads nothing that a check writes: programs that differ in inferred
types only are checked alike, and a checked program is the result of its own check. -/

namespace TypedTree

def FunctionDecl.scopes (environment : Environment) (declaration : FunctionDecl) : Scopes :=
  (Context.ofEnvironment environment).scopes.insertAll
    (declaration.params.map fun parameter => (parameter.name, parameter.type))

def FunctionDecl.annotate (environment : Environment) (declaration : FunctionDecl) : FunctionDecl :=
  { declaration with body := annotateLines environment (declaration.scopes environment) declaration.body }

def FunctionDecl.verdict (environment : Environment) (declaration : FunctionDecl) : Except Problem Unit :=
  linesVerdict environment (declaration.scopes environment) declaration.body

theorem Context.outcome_checkFunction (environment : Environment) (declaration : FunctionDecl) :
    ((ofEnvironment environment).checkFunction declaration).1.outcome = declaration.verdict environment :=
  rfl

theorem Context.tree_checkFunction {environment : Environment} {declaration : FunctionDecl}
    (accepted : declaration.verdict environment = .ok ()) :
    ((ofEnvironment environment).checkFunction declaration).1.tree = declaration.annotate environment :=
  congrArg (fun body => { declaration with body }) (tree_checkLines_of_verdict environment _ _ accepted)

theorem Decl.checkBody_function (environment : Environment) (declaration : FunctionDecl) :
    checkBody (.ok environment) (.function declaration) =
      match declaration.verdict environment with
      | .error problem => .error (.semantic problem)
      | .ok () => .ok (.function (declaration.annotate environment)) := by
  cases judged : declaration.verdict environment with
  | error problem =>
    rw [← Context.outcome_checkFunction] at judged
    simp only [checkBody, bind, Except.bind, judged]
  | ok value =>
    rw [← Context.tree_checkFunction judged]
    rw [← Context.outcome_checkFunction] at judged
    simp only [checkBody, bind, Except.bind, judged]

section Erased

@[simp] theorem FunctionDecl.verdict_erase (environment : Environment) (declaration : FunctionDecl) :
    declaration.erase.verdict environment = declaration.verdict environment :=
  linesVerdict_erase environment _ declaration.body

@[simp] theorem FunctionDecl.annotate_erase (environment : Environment) (declaration : FunctionDecl) :
    declaration.erase.annotate environment = declaration.annotate environment :=
  congrArg (fun body => { declaration with body }) (annotateLines_erase environment _ declaration.body)

@[simp] theorem FunctionDecl.erase_annotate (environment : Environment) (declaration : FunctionDecl) :
    (declaration.annotate environment).erase = declaration.erase :=
  congrArg (fun body => { declaration with body }) (eraseLines_annotate environment _ declaration.body)

theorem Decl.checkBody_erase (environment : Except Error Environment) (decl : Decl) :
    checkBody environment decl.erase = checkBody environment decl := by
  cases decl with
  | object declaration => rfl
  | function declaration =>
    cases environment with
    | error error => rfl
    | ok environment =>
      rw [Decl.erase, checkBody_function, checkBody_function, FunctionDecl.verdict_erase,
        FunctionDecl.annotate_erase]

theorem checkBodies_erase (environment : Except Error Environment) (decls : List Decl) :
    (decls.map Decl.erase).mapM (Decl.checkBody environment) =
      decls.mapM (Decl.checkBody environment) := by
  induction decls with
  | nil => rfl
  | cons decl decls ih =>
    simp only [List.map_cons, List.mapM_cons, Decl.checkBody_erase, ih]

theorem Environment.declare_erase (environment : Environment) (decl : Decl) :
    environment.declare decl.erase = environment.declare decl := by
  cases decl <;> rfl

theorem Environment.declareAll_erase (environment : Environment) (decls : List Decl) :
    environment.declareAll (decls.map Decl.erase) = environment.declareAll decls := by
  simp only [declareAll, List.foldl_map, declare_erase]

theorem Decl.exported_erase (decl : Decl) : decl.erase.exported = decl.exported := by
  cases decl <;> rfl

theorem Program.exported_erase (program : Program) :
    program.erase.exported = program.exported.map Decl.erase := by
  obtain ⟨imports, decls⟩ := program
  simp only [exported, erase, List.filter_map]
  congr 2
  exact funext Decl.exported_erase

theorem Environment.importAll_erase (environment : Environment) (imports : List Import) :
    environment.importAll (eraseImports imports) = environment.importAll imports := by
  induction imports generalizing environment with
  | nil => rfl
  | cons entry imports ih =>
    obtain ⟨path, target⟩ := entry
    cases target with
    | none => rfl
    | some shared =>
      obtain ⟨id, program⟩ := shared
      simp only [eraseImports, Import.erase, eraseTarget, Module.erase, importAll,
        Program.exported_erase, declareAll_erase, ih]

theorem Environment.ofProgram_erase (program : Program) :
    ofProgram program.erase = ofProgram program := by
  obtain ⟨imports, decls⟩ := program
  simp only [ofProgram, Program.erase, importAll_erase, declareAll_erase]

mutual

theorem Program.checkBodiesApart_erase (program : Program) :
    program.erase.checkBodiesApart = program.checkBodiesApart := by
  match program with
  | ⟨imports, decls⟩ =>
    have environment := Environment.ofProgram_erase ⟨imports, decls⟩
    simp only [Program.erase] at environment
    simp only [Program.erase, Program.checkBodiesApart, importsCheckBodiesApart_erase imports,
      checkBodies_erase, environment]

theorem importsCheckBodiesApart_erase (imports : List Import) :
    importsCheckBodiesApart (eraseImports imports) = importsCheckBodiesApart imports := by
  match imports with
  | [] => rfl
  | entry :: imports =>
    simp only [eraseImports, importsCheckBodiesApart, Import.checkBodiesApart_erase entry,
      importsCheckBodiesApart_erase imports]

theorem Import.checkBodiesApart_erase (entry : Import) :
    Import.checkBodiesApart (Import.erase entry) = Import.checkBodiesApart entry := by
  match entry with
  | ⟨path, target⟩ => simp only [Import.erase, Import.checkBodiesApart, targetCheckBodiesApart_erase target]

theorem targetCheckBodiesApart_erase (target : Option Module) :
    targetCheckBodiesApart (eraseTarget target) = targetCheckBodiesApart target := by
  match target with
  | none => rfl
  | some shared =>
    simp only [eraseTarget, targetCheckBodiesApart, Module.checkBodiesApart_erase shared]

theorem Module.checkBodiesApart_erase (shared : Module) :
    Module.checkBodiesApart (Module.erase shared) = Module.checkBodiesApart shared := by
  match shared with
  | ⟨id, program⟩ =>
    simp only [Module.erase, Module.checkBodiesApart, Program.checkBodiesApart_erase program]

end

mutual

theorem Stmt.typeEvents_erase (stmt : Stmt) : stmt.erase.typeEvents = stmt.typeEvents := by
  match stmt with
  | .branch _ thenBranch elseBranch =>
    simp only [Stmt.erase, Stmt.typeEvents, Stmt.typeEvents_erase thenBranch,
      elseTypeEvents_erase elseBranch]
  | .block lines => simp only [Stmt.erase, Stmt.typeEvents, linesTypeEvents_erase lines]
  | .declare .. | .assign .. | .call .. => simp only [Stmt.erase, Stmt.typeEvents]

theorem elseTypeEvents_erase (branch : Option Stmt) :
    elseTypeEvents (eraseElse branch) = elseTypeEvents branch := by
  match branch with
  | none => rfl
  | some branch => simp only [eraseElse, elseTypeEvents, Stmt.typeEvents_erase branch]

theorem linesTypeEvents_erase (lines : List Stmt) :
    linesTypeEvents (eraseLines lines) = linesTypeEvents lines := by
  match lines with
  | [] => rfl
  | line :: lines =>
    simp only [eraseLines, linesTypeEvents, Stmt.typeEvents_erase line, linesTypeEvents_erase lines]

end

theorem Decl.typeEvents_erase (decl : Decl) : decl.erase.typeEvents = decl.typeEvents := by
  cases decl with
  | object declaration => rfl
  | function declaration =>
    simp only [Decl.erase, FunctionDecl.erase, Decl.typeEvents, linesTypeEvents_erase]

theorem Program.typeEventsApart_erase (program : Program) :
    program.erase.typeEventsApart = program.typeEventsApart := by
  induction program using Program.importInduction with
  | step imports decls inside =>
    have imported : importsTypeEventsApart (eraseImports imports) = importsTypeEventsApart imports := by
      induction imports with
      | nil => rfl
      | cons entry imports ih =>
        obtain ⟨path, target⟩ := entry
        have rest := ih fun other member => inside other (List.mem_cons_of_mem _ member)
        have first := inside ⟨path, target⟩ List.mem_cons_self
        cases target with
        | none => simp only [eraseImports, importsTypeEventsApart, Import.erase, eraseTarget, rest]
        | some shared =>
          obtain ⟨id, program⟩ := shared
          have below : program.erase.typeEventsApart = program.typeEventsApart := first ⟨id, program⟩ rfl
          simp only [eraseImports, importsTypeEventsApart, Import.erase, eraseTarget,
            Import.typeEventsApart, targetTypeEventsApart, Module.erase, Module.typeEventsApart,
            below, rest]
    simp only [Program.erase, Program.typeEventsApart, imported, List.flatMap_map, Decl.typeEvents_erase]

theorem Program.checkApart_erase (program : Program) : program.erase.checkApart = program.checkApart := by
  simp only [checkApart, typeEventsApart_erase, checkBodiesApart_erase]

end Erased

section Kept

theorem Decl.erase_of_checkBody {environment : Except Error Environment} {decl checked : Decl}
    (accepted : checkBody environment decl = .ok checked) : checked.erase = decl.erase := by
  cases decl with
  | object declaration =>
    cases accepted
    rfl
  | function declaration =>
    cases environment with
    | error error => cases accepted
    | ok environment =>
      rw [checkBody_function] at accepted
      split at accepted
      · cases accepted
      · cases accepted
        exact congrArg Decl.function (declaration.erase_annotate environment)

theorem erase_of_checkBodies {environment : Except Error Environment} {decls checked : List Decl}
    (accepted : decls.mapM (Decl.checkBody environment) = .ok checked) :
    checked.map Decl.erase = decls.map Decl.erase := by
  induction mapM_eq_ok_iff.mp accepted with
  | nil => rfl
  | cons firstDone restDone ih =>
    rw [List.map_cons, List.map_cons, Decl.erase_of_checkBody firstDone, ih (mapM_eq_ok_iff.mpr restDone)]

theorem Program.erase_of_checkBodiesApart {program checked : Program}
    (accepted : program.checkBodiesApart = .ok checked) : checked.erase = program.erase := by
  induction program using Program.importInduction generalizing checked with
  | step imports decls inside =>
    obtain ⟨checkedImports, checkedDecls, importsDone, declsDone, rfl⟩ :=
      (Program.checkBodiesApart_eq_ok_iff imports decls checked).mp accepted
    have imported : eraseImports checkedImports = eraseImports imports := by
      clear accepted declsDone
      induction imports generalizing checkedImports with
      | nil =>
        cases importsDone
        rfl
      | cons entry imports ih =>
        obtain ⟨path, target⟩ := entry
        obtain ⟨first, others, firstDone, othersDone, rfl⟩ :=
          (importsCheckBodiesApart_cons_eq_ok_iff _ imports checkedImports).mp importsDone
        have rest := ih (fun other member => inside other (List.mem_cons_of_mem _ member)) others othersDone
        have shared := inside ⟨path, target⟩ List.mem_cons_self
        match target with
        | none =>
          cases firstDone
          simp only [eraseImports, Import.erase, rest]
        | some ⟨id, program⟩ =>
          obtain ⟨below, belowDone, rfl⟩ :=
            (Import.checkBodiesApart_resolved_eq_ok_iff path id program first).mp firstDone
          have same : below.erase = program.erase := shared ⟨id, program⟩ rfl belowDone
          simp only [eraseImports, Import.erase, eraseTarget, Module.erase, rest, same]
    simp only [Program.erase, imported, erase_of_checkBodies declsDone]

theorem Program.modules_of_checkBodiesApart {program checked : Program}
    (accepted : program.checkBodiesApart = .ok checked) :
    ∀ other ∈ checked.modules, ∃ shared ∈ program.modules,
      other.id = shared.id ∧ shared.program.checkBodiesApart = .ok other.program := by
  induction program using Program.importInduction generalizing checked with
  | step imports decls inside =>
    obtain ⟨checkedImports, checkedDecls, importsDone, declsDone, rfl⟩ :=
      (Program.checkBodiesApart_eq_ok_iff imports decls checked).mp accepted
    simp only [Program.modules]
    clear accepted declsDone
    induction imports generalizing checkedImports with
    | nil =>
      cases importsDone
      intro other member
      cases member
    | cons entry imports ih =>
      obtain ⟨path, target⟩ := entry
      obtain ⟨first, others, firstDone, othersDone, rfl⟩ :=
        (importsCheckBodiesApart_cons_eq_ok_iff _ imports checkedImports).mp importsDone
      have rest := ih (fun other member => inside other (List.mem_cons_of_mem _ member)) others othersDone
      have below := inside ⟨path, target⟩ List.mem_cons_self
      intro other member
      rcases List.mem_append.mp member with here | later
      · cases target with
        | none =>
          cases firstDone
          cases here
        | some shared =>
          obtain ⟨id, program⟩ := shared
          obtain ⟨checkedProgram, programDone, rfl⟩ :=
            (Import.checkBodiesApart_resolved_eq_ok_iff path id program first).mp firstDone
          rcases List.mem_cons.mp here with rfl | deeper
          · exact ⟨⟨id, program⟩, List.mem_append_left _ List.mem_cons_self, rfl, programDone⟩
          · obtain ⟨shared, sharedMember, result⟩ := below ⟨id, program⟩ rfl programDone other deeper
            exact ⟨shared, List.mem_append_left _ (List.mem_cons_of_mem _ sharedMember), result⟩
      · obtain ⟨shared, sharedMember, result⟩ := rest other later
        exact ⟨shared, List.mem_append_right _ sharedMember, result⟩

theorem Program.coherent_of_checkBodiesApart {program checked : Program} (coherent : program.Coherent)
    (accepted : program.checkBodiesApart = .ok checked) : checked.Coherent := by
  intro left leftMember right rightMember sameId
  obtain ⟨leftShared, leftBefore, leftId, leftDone⟩ :=
    modules_of_checkBodiesApart accepted left leftMember
  obtain ⟨rightShared, rightBefore, rightId, rightDone⟩ :=
    modules_of_checkBodiesApart accepted right rightMember
  have same : leftShared = rightShared :=
    coherent leftShared leftBefore rightShared rightBefore (leftId.symm.trans (sameId.trans rightId))
  subst same
  obtain ⟨id, program⟩ := left
  obtain ⟨_, _⟩ := right
  cases sameId
  exact congrArg (Module.mk id) (Except.ok.inj (leftDone.symm.trans rightDone))

end Kept

/-- Every expression carries a type, in the bodies of the program and of all programs it imports. -/
def Program.Annotated (program : Program) : Prop :=
  (∀ expr ∈ program.exprs, expr.type?.isSome = true) ∧
    ∀ shared ∈ program.modules, ∀ expr ∈ shared.program.exprs, expr.type?.isSome = true

theorem Decl.written_of_checkBody {environment : Except Error Environment} {decl checked : Decl}
    (accepted : checkBody environment decl = .ok checked) :
    ∀ expr ∈ checked.exprs, expr.type?.isSome = true := by
  cases decl with
  | object declaration =>
    cases accepted
    exact fun _ member => (nomatch member)
  | function declaration =>
    cases environment with
    | error error => cases accepted
    | ok environment =>
      rw [checkBody_function] at accepted
      split at accepted
      · cases accepted
      next judged =>
        cases accepted
        exact written_linesExprs environment _ declaration.body judged

theorem Program.written_of_checkBodiesApart {program checked : Program}
    (accepted : program.checkBodiesApart = .ok checked) :
    ∀ expr ∈ checked.exprs, expr.type?.isSome = true := by
  obtain ⟨imports, decls⟩ := program
  obtain ⟨_, checkedDecls, _, declsDone, rfl⟩ :=
    (checkBodiesApart_eq_ok_iff imports decls checked).mp accepted
  intro expr member
  obtain ⟨decl, declared, inside⟩ := List.mem_flatMap.mp member
  obtain ⟨_, _, done⟩ := mem_of_mapM_eq_ok declsDone decl declared
  exact Decl.written_of_checkBody done expr inside

theorem Program.annotated_of_checkBodiesApart {program checked : Program}
    (accepted : program.checkBodiesApart = .ok checked) : checked.Annotated := by
  refine ⟨written_of_checkBodiesApart accepted, ?_⟩
  intro shared member
  obtain ⟨_, _, _, done⟩ := modules_of_checkBodiesApart accepted shared member
  exact written_of_checkBodiesApart done

theorem Program.checkBodiesApart_of_check {program checked : Program} (coherent : program.Coherent)
    (accepted : program.check = .ok checked) : program.checkBodiesApart = .ok checked := by
  rw [check_eq_checkApart coherent, checkApart, bind_eq_ok_iff] at accepted
  obtain ⟨_, _, bodies⟩ := accepted
  exact bodies

theorem Program.check_of_erase_eq {program other : Program} (coherent : program.Coherent)
    (otherCoherent : other.Coherent) (same : program.erase = other.erase) :
    program.check = other.check := by
  rw [check_eq_checkApart coherent, check_eq_checkApart otherCoherent, ← checkApart_erase program, same,
    checkApart_erase]

theorem Program.check_of_checked {program checked : Program} (coherent : program.Coherent)
    (accepted : program.check = .ok checked) : checked.check = .ok checked := by
  have bodies := checkBodiesApart_of_check coherent accepted
  rw [← accepted]
  exact check_of_erase_eq (coherent_of_checkBodiesApart coherent bodies) coherent
    (erase_of_checkBodiesApart bodies)

/-- A check reads no inferred type and changes nothing else: programs that are equal without inferred
types have the same outcome, and a checked program is the program with a type on every expression, which
a further check leaves as it is. -/
theorem Program.check_ignores_types {program other : Program} (coherent : program.Coherent)
    (otherCoherent : other.Coherent) (same : program.erase = other.erase) :
    program.check = other.check ∧
      ∀ checked, program.check = .ok checked →
        checked.erase = program.erase ∧ checked.Annotated ∧ checked.check = .ok checked := by
  refine ⟨check_of_erase_eq coherent otherCoherent same, ?_⟩
  intro checked accepted
  have bodies := checkBodiesApart_of_check coherent accepted
  exact ⟨erase_of_checkBodiesApart bodies, annotated_of_checkBodiesApart bodies,
    check_of_checked coherent accepted⟩

/-- A wrong type on an argument is neither believed nor kept. -/
theorem Program.check_ignores_types_stale :
    let imports : List Import := [⟨"system", some ⟨0, .system⟩⟩, ⟨"system", some ⟨0, .system⟩⟩]
    let main := fun stale : Option Ty => Decl.function
      { name := "main", returns := .void, body := [.call (.var "log" none) [.string "text" stale] none] }
    let program : Program := ⟨imports, [main (some .int32)]⟩
    let other : Program := ⟨imports, [main none]⟩
    program.Coherent ∧ other.Coherent ∧ program.erase = other.erase ∧ program.check = other.check := by
  intro imports main program other
  have coherent : ∀ decls, (Program.mk imports decls).Coherent := fun decls left leftIn right rightIn _ =>
    have both : (Program.mk imports decls).modules = List.replicate 2 ⟨0, .system⟩ := rfl
    (List.eq_of_mem_replicate (both ▸ leftIn)).trans (List.eq_of_mem_replicate (both ▸ rightIn)).symm
  have same : program.erase = other.erase := rfl
  exact ⟨coherent _, coherent _, same, (Program.check_ignores_types (coherent _) (coherent _) same).left⟩

end TypedTree
