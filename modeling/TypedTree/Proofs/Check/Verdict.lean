import TypedTree.Proofs.Check.Annotation
/-! What a check makes of statements: a verdict, the scopes behind the statement, and the annotated
statement. Only the declaration of a variable changes the scopes, and only if it is accepted. -/

namespace TypedTree

def Stmt.scopesAfter (scopes : Scopes) : Stmt → Scopes
  | .declare name type _ => scopes.insert name type
  | .assign .. | .branch .. | .call .. | .block .. => scopes

theorem Stmt.within_scopesAfter {outer scopes : Scopes} (within : outer.Within scopes) (stmt : Stmt) :
    outer.Within (stmt.scopesAfter scopes) := by
  cases stmt with
  | declare name type value => exact within.insert name type
  | _ => exact within

theorem scopes_checkDeclare (context : Context) (name : String) (type : Ty) (value : Option Expr) :
    (checkDeclare context name type value).scopes =
      match (checkDeclare context name type value).outcome with
      | .ok () => context.scopes.insert name type
      | .error _ => context.scopes := by
  unfold checkDeclare
  split
  · rfl
  · dsimp only
    split
    · rfl
    · split
      · rfl
      next defined =>
        obtain ⟨_, rfl⟩ := (Scopes.define_eq_ok_iff _ _ _ _).mp defined
        rfl

theorem Stmt.exit_of_scopes_check {environment : Environment} {scopes : Scopes} {stmt : Stmt}
    (behind : (stmt.check environment scopes.enter).scopes =
      match (stmt.check environment scopes.enter).outcome with
      | .ok () => stmt.scopesAfter scopes.enter
      | .error _ => scopes.enter) :
    (stmt.check environment scopes.enter).scopes.exit = scopes := by
  rw [behind]
  split
  · exact (stmt.within_scopesAfter scopes.within_enter).exit
  · rfl

mutual

/-- A statement leaves the scopes as they are, unless it is an accepted declaration. -/
theorem Stmt.scopes_check (environment : Environment) (scopes : Scopes) (stmt : Stmt) :
    (stmt.check environment scopes).scopes =
      match (stmt.check environment scopes).outcome with
      | .ok () => stmt.scopesAfter scopes
      | .error _ => scopes := by
  match stmt with
  | .declare name type value => exact scopes_checkDeclare ⟨environment, scopes⟩ name type value
  | .assign target value =>
    simp only [Stmt.check, Stmt.scopesAfter]
    split <;> rfl
  | .call callee args type =>
    simp only [Stmt.check, Stmt.scopesAfter]
    split <;> rfl
  | .block lines =>
    have restored := (within_checkLines environment scopes.within_enter lines).exit
    simp only [Stmt.check, CheckedBody.exitScope, Stmt.scopesAfter, restored]
    split <;> rfl
  | .branch condition thenBranch elseBranch =>
    have restored := Stmt.exit_of_scopes_check (Stmt.scopes_check environment scopes.enter thenBranch)
    have kept := scopes_checkElse environment scopes elseBranch
    simp only [Stmt.check, Stmt.scopesAfter]
    split
    · split <;> rfl
    · simp only [CheckedBody.exitScope, restored]
      split
      · split <;> rfl
      · simp only [kept]
        split <;> rfl

theorem scopes_checkElse (environment : Environment) (scopes : Scopes) (branch : Option Stmt) :
    (checkElse environment scopes branch).scopes = scopes := by
  match branch with
  | none => rfl
  | some branch =>
    exact Stmt.exit_of_scopes_check (Stmt.scopes_check environment scopes.enter branch)

theorem within_checkLines (environment : Environment) {outer scopes : Scopes}
    (within : outer.Within scopes) (lines : List Stmt) :
    outer.Within (checkLines environment scopes lines).scopes := by
  match lines with
  | [] => exact within
  | line :: lines =>
    have after : outer.Within (line.check environment scopes).scopes := by
      rw [Stmt.scopes_check environment scopes line]
      split
      · exact line.within_scopesAfter within
      · exact within
    simp only [checkLines]
    split
    · exact after
    · exact within_checkLines environment after lines

end

/-- What a check finds out about a statement. -/
def Stmt.verdict (environment : Environment) (scopes : Scopes) (stmt : Stmt) : Except Problem Unit :=
  (stmt.check environment scopes).outcome

def elseVerdict (environment : Environment) (scopes : Scopes) (branch : Option Stmt) :
    Except Problem Unit := (checkElse environment scopes branch).outcome

def linesVerdict (environment : Environment) (scopes : Scopes) (lines : List Stmt) :
    Except Problem Unit := (checkLines environment scopes lines).outcome

def initializerVerdict (context : Context) (whole : Stmt) (type : Ty) (value : Option Expr) :
    Except Problem Unit := (checkInitializer context whole type value).outcome

section Equations

variable (environment : Environment) (scopes : Scopes)

@[simp] theorem initializerVerdict_none (context : Context) (whole : Stmt) (type : Ty) :
    initializerVerdict context whole type none = .ok () := rfl

theorem initializerVerdict_some (context : Context) (whole : Stmt) (type : Ty) (value : Expr) :
    initializerVerdict context whole type (some value) = (do
      let found ← value.infer context
      expectType whole.render type found) :=
  Checked.outcome_andThen _ _ _ _ fun _ _ => rfl

theorem Stmt.verdict_declare (name : String) (type : Ty) (value : Option Expr) :
    (declare name type value).verdict environment scopes =
      if scopes.isDeclared name then .error (.duplicateVariable name)
      else initializerVerdict ⟨environment, scopes⟩ (.declare name type value) type value := by
  unfold verdict initializerVerdict
  simp only [check, checkDeclare]
  split
  · rfl
  next fresh =>
    have defined : scopes.define name type = .ok (scopes.insert name type) := if_neg fresh
    simp only [defined]
    split
    next rejected => exact rejected.symm
    next accepted => exact accepted.symm

theorem Stmt.verdict_assign (target value : Expr) :
    (assign target value).verdict environment scopes = (do
      let found ← value.infer ⟨environment, scopes⟩
      let expected ← target.inferPlace ⟨environment, scopes⟩
      expectType (Stmt.assign target value).render expected found) := by
  unfold verdict
  simp only [check, checkAssign]
  apply Checked.outcome_andThen
  intro _ found
  rw [Checked.outcome_andThen, outcome_asPlace]
  exact fun _ _ => rfl

theorem Stmt.verdict_branch (condition : Expr) (thenBranch : Stmt) (elseBranch : Option Stmt) :
    (branch condition thenBranch elseBranch).verdict environment scopes = (do
      let conditionType ← condition.infer ⟨environment, scopes⟩
      thenBranch.verdict environment scopes.enter
      elseVerdict environment scopes elseBranch
      if conditionType.agrees .bool then .ok () else .error (.ifNeedsBool condition.render)) := by
  have restored := exit_of_scopes_check (thenBranch.scopes_check environment scopes.enter)
  simp only [verdict, Expr.infer, elseVerdict, check, CheckedBody.exitScope, restored]
  cases (condition.check ⟨environment, scopes⟩).outcome with
  | error problem => rfl
  | ok conditionType => cases (thenBranch.check environment scopes.enter).outcome <;> rfl

theorem Stmt.verdict_call (callee : Expr) (args : List Expr) (type : Option Ty) :
    (call callee args type).verdict environment scopes = (do
      let _ ← (Expr.call callee args type).infer ⟨environment, scopes⟩
      return ()) := by
  simp only [verdict, check, Expr.infer]
  cases ((Expr.call callee args type).check ⟨environment, scopes⟩).outcome <;> rfl

theorem Stmt.verdict_block (lines : List Stmt) :
    (block lines).verdict environment scopes = linesVerdict environment scopes.enter lines := rfl

theorem elseVerdict_some (branch : Stmt) :
    elseVerdict environment scopes (some branch) = branch.verdict environment scopes.enter := rfl

theorem linesVerdict_cons (line : Stmt) (lines : List Stmt) :
    linesVerdict environment scopes (line :: lines) = (do
      line.verdict environment scopes
      linesVerdict environment (line.scopesAfter scopes) lines) := by
  have behind := line.scopes_check environment scopes
  unfold linesVerdict Stmt.verdict
  rw [checkLines]
  cases judged : (line.check environment scopes).outcome with
  | error problem => rfl
  | ok value =>
    simp only [judged] at behind
    simp only [behind]
    rfl

theorem initializerVerdict_some_eq_ok_iff (context : Context) (whole : Stmt) (type : Ty) (value : Expr) :
    initializerVerdict context whole type (some value) = .ok () ↔
      ∃ found, value.infer context = .ok found ∧ found.agrees type = true := by
  simp only [initializerVerdict_some, bind_eq_ok_iff, expectType_eq_ok_iff]

theorem Stmt.verdict_declare_eq_ok_iff (name : String) (type : Ty) (value : Option Expr) :
    (declare name type value).verdict environment scopes = .ok () ↔
      scopes.lookup name = none ∧
        initializerVerdict ⟨environment, scopes⟩ (.declare name type value) type value = .ok () := by
  rw [verdict_declare, Scopes.isDeclared]
  cases scopes.lookup name <;> simp

theorem Stmt.verdict_assign_eq_ok_iff (target value : Expr) :
    (assign target value).verdict environment scopes = .ok () ↔
      ∃ found expected, value.infer ⟨environment, scopes⟩ = .ok found ∧ target.isPlace = true ∧
        target.infer ⟨environment, scopes⟩ = .ok expected ∧ found.agrees expected = true := by
  simp only [verdict_assign, bind_eq_ok_iff, expectType_eq_ok_iff, Expr.inferPlace_eq_ok_iff, and_assoc,
    exists_and_left]

theorem Stmt.verdict_branch_eq_ok_iff (condition : Expr) (thenBranch : Stmt)
    (elseBranch : Option Stmt) :
    (branch condition thenBranch elseBranch).verdict environment scopes = .ok () ↔
      ∃ conditionType, condition.infer ⟨environment, scopes⟩ = .ok conditionType ∧
        thenBranch.verdict environment scopes.enter = .ok () ∧
          elseVerdict environment scopes elseBranch = .ok () ∧ conditionType.agrees .bool = true := by
  rw [verdict_branch, bind_eq_ok_iff]
  apply exists_congr
  intro conditionType
  rw [bind_unit_eq_ok_iff, bind_unit_eq_ok_iff]
  cases conditionType.agrees .bool <;> simp

theorem Stmt.verdict_call_eq_ok_iff (callee : Expr) (args : List Expr) (type : Option Ty) :
    (call callee args type).verdict environment scopes = .ok () ↔
      ∃ found, (Expr.call callee args type).infer ⟨environment, scopes⟩ = .ok found := by
  rw [verdict_call, bind_eq_ok_iff]
  exact exists_congr fun _ => ⟨And.left, fun found => ⟨found, rfl⟩⟩

theorem linesVerdict_cons_eq_ok_iff (line : Stmt) (lines : List Stmt) :
    linesVerdict environment scopes (line :: lines) = .ok () ↔
      line.verdict environment scopes = .ok () ∧
        linesVerdict environment (line.scopesAfter scopes) lines = .ok () := by
  rw [linesVerdict_cons, bind_unit_eq_ok_iff]

end Equations

section Erased

variable (environment : Environment)

@[simp] theorem Stmt.scopesAfter_erase (scopes : Scopes) (stmt : Stmt) :
    stmt.erase.scopesAfter scopes = stmt.scopesAfter scopes := by
  cases stmt <;> rfl

theorem initializerVerdict_erase (context : Context) (whole : Stmt) (type : Ty) (value : Option Expr) :
    initializerVerdict context whole.erase type (value.map Expr.erase) =
      initializerVerdict context whole type value := by
  cases value with
  | none => rfl
  | some value =>
    simp only [Option.map, initializerVerdict_some, Expr.infer_erase, Stmt.render_erase]

mutual

theorem Stmt.verdict_erase (scopes : Scopes) (stmt : Stmt) :
    stmt.erase.verdict environment scopes = stmt.verdict environment scopes := by
  match stmt with
  | .declare name type value =>
    have initializer := initializerVerdict_erase ⟨environment, scopes⟩ (.declare name type value) type value
    simp only [Stmt.erase] at initializer
    simp only [Stmt.erase, Stmt.verdict_declare, initializer]
  | .assign target value =>
    have text := Stmt.render_erase (.assign target value)
    simp only [Stmt.erase] at text
    simp only [Stmt.erase, Stmt.verdict_assign, Expr.infer_erase, text,
      Expr.inferPlace_erase _ (Expr.infer_erase _ target)]
  | .branch condition thenBranch elseBranch =>
    simp only [Stmt.erase, Stmt.verdict_branch, Expr.infer_erase, Expr.render_erase,
      Stmt.verdict_erase scopes.enter thenBranch, elseVerdict_erase scopes elseBranch]
  | .call callee args type =>
    have whole := Expr.infer_erase ⟨environment, scopes⟩ (.call callee args type)
    simp only [Expr.erase] at whole
    simp only [Stmt.erase, Stmt.verdict_call, whole]
  | .block lines => simp only [Stmt.erase, Stmt.verdict_block, linesVerdict_erase scopes.enter lines]

theorem elseVerdict_erase (scopes : Scopes) (branch : Option Stmt) :
    elseVerdict environment scopes (eraseElse branch) = elseVerdict environment scopes branch := by
  match branch with
  | none => rfl
  | some branch =>
    simp only [eraseElse, elseVerdict_some, Stmt.verdict_erase scopes.enter branch]

theorem linesVerdict_erase (scopes : Scopes) (lines : List Stmt) :
    linesVerdict environment scopes (eraseLines lines) = linesVerdict environment scopes lines := by
  match lines with
  | [] => rfl
  | line :: lines =>
    simp only [eraseLines, linesVerdict_cons, Stmt.scopesAfter_erase, Stmt.verdict_erase scopes line,
      linesVerdict_erase (line.scopesAfter scopes) lines]

end

end Erased

mutual

def Stmt.annotate (environment : Environment) (scopes : Scopes) : Stmt → Stmt
  | .declare name type value => .declare name type (value.map (Expr.annotate ⟨environment, scopes⟩))
  | .assign target value =>
    .assign (target.annotate ⟨environment, scopes⟩) (value.annotate ⟨environment, scopes⟩)
  | .branch condition thenBranch elseBranch =>
    .branch (condition.annotate ⟨environment, scopes⟩) (thenBranch.annotate environment scopes.enter)
      (annotateElse environment scopes elseBranch)
  | .call callee args type =>
    .call (callee.annotate ⟨environment, scopes⟩) (annotateArgs ⟨environment, scopes⟩ args)
      ((Expr.call callee args type).infer ⟨environment, scopes⟩).toOption
  | .block lines => .block (annotateLines environment scopes.enter lines)

def annotateElse (environment : Environment) (scopes : Scopes) : Option Stmt → Option Stmt
  | none => none
  | some branch => some (branch.annotate environment scopes.enter)

def annotateLines (environment : Environment) (scopes : Scopes) : List Stmt → List Stmt
  | [] => []
  | line :: lines =>
    line.annotate environment scopes :: annotateLines environment (line.scopesAfter scopes) lines

end

theorem checkInitializer_of_verdict (context : Context) (whole : Stmt) (type : Ty) (value : Option Expr)
    (fits : initializerVerdict context whole type value = .ok ()) :
    checkInitializer context whole type value = ⟨value.map (Expr.annotate context), .ok ()⟩ := by
  cases value with
  | none => rfl
  | some value =>
    obtain ⟨found, valueFound, agrees⟩ :=
      (initializerVerdict_some_eq_ok_iff context whole type value).mp fits
    have accepted := (expectType_eq_ok_iff whole.render type found).mpr agrees
    simp only [checkInitializer, Expr.check_of_infer _ value valueFound, Checked.andThen, accepted,
      Option.map]

section Annotated

variable (environment : Environment)

mutual

theorem Stmt.annotate_erase (scopes : Scopes) (stmt : Stmt) :
    stmt.erase.annotate environment scopes = stmt.annotate environment scopes := by
  match stmt with
  | .declare name type value =>
    cases value <;> simp only [Stmt.erase, Stmt.annotate, Option.map, Expr.annotate_erase]
  | .assign target value => simp only [Stmt.erase, Stmt.annotate, Expr.annotate_erase]
  | .branch condition thenBranch elseBranch =>
    simp only [Stmt.erase, Stmt.annotate, Expr.annotate_erase,
      Stmt.annotate_erase scopes.enter thenBranch, annotateElse_erase scopes elseBranch]
  | .call callee args type =>
    have whole := Expr.infer_erase ⟨environment, scopes⟩ (.call callee args type)
    simp only [Expr.erase] at whole
    simp only [Stmt.erase, Stmt.annotate, Expr.annotate_erase, annotateArgs_erase, whole]
  | .block lines => simp only [Stmt.erase, Stmt.annotate, annotateLines_erase scopes.enter lines]

theorem annotateElse_erase (scopes : Scopes) (branch : Option Stmt) :
    annotateElse environment scopes (eraseElse branch) = annotateElse environment scopes branch := by
  match branch with
  | none => rfl
  | some branch => simp only [eraseElse, annotateElse, Stmt.annotate_erase scopes.enter branch]

theorem annotateLines_erase (scopes : Scopes) (lines : List Stmt) :
    annotateLines environment scopes (eraseLines lines) = annotateLines environment scopes lines := by
  match lines with
  | [] => rfl
  | line :: lines =>
    simp only [eraseLines, annotateLines, Stmt.scopesAfter_erase, Stmt.annotate_erase scopes line,
      annotateLines_erase (line.scopesAfter scopes) lines]

end

mutual

theorem Stmt.erase_annotate (scopes : Scopes) (stmt : Stmt) :
    (stmt.annotate environment scopes).erase = stmt.erase := by
  match stmt with
  | .declare name type value =>
    cases value <;> simp only [Stmt.annotate, Stmt.erase, Option.map, Expr.erase_annotate]
  | .assign target value => simp only [Stmt.annotate, Stmt.erase, Expr.erase_annotate]
  | .branch condition thenBranch elseBranch =>
    simp only [Stmt.annotate, Stmt.erase, Expr.erase_annotate,
      Stmt.erase_annotate scopes.enter thenBranch, eraseElse_annotate scopes elseBranch]
  | .call callee args type =>
    simp only [Stmt.annotate, Stmt.erase, Expr.erase_annotate, eraseArgs_annotate]
  | .block lines => simp only [Stmt.annotate, Stmt.erase, eraseLines_annotate scopes.enter lines]

theorem eraseElse_annotate (scopes : Scopes) (branch : Option Stmt) :
    eraseElse (annotateElse environment scopes branch) = eraseElse branch := by
  match branch with
  | none => rfl
  | some branch => simp only [annotateElse, eraseElse, Stmt.erase_annotate scopes.enter branch]

theorem eraseLines_annotate (scopes : Scopes) (lines : List Stmt) :
    eraseLines (annotateLines environment scopes lines) = eraseLines lines := by
  match lines with
  | [] => rfl
  | line :: lines =>
    simp only [annotateLines, eraseLines, Stmt.erase_annotate scopes line,
      eraseLines_annotate (line.scopesAfter scopes) lines]

end

mutual

theorem Stmt.tree_check_of_verdict (scopes : Scopes) (stmt : Stmt)
    (accepted : stmt.verdict environment scopes = .ok ()) :
    (stmt.check environment scopes).tree = stmt.annotate environment scopes := by
  match stmt with
  | .declare name type value =>
    obtain ⟨fresh, fits⟩ := (Stmt.verdict_declare_eq_ok_iff environment scopes name type value).mp accepted
    have undeclared : scopes.isDeclared name = false := by simp only [Scopes.isDeclared, fresh, Option.isSome]
    have defined := (Scopes.define_eq_ok_iff scopes _ name type).mpr ⟨fresh, rfl⟩
    have checkedValue := checkInitializer_of_verdict ⟨environment, scopes⟩ (.declare name type value) type
      value fits
    simp only [Stmt.check, checkDeclare, undeclared, checkedValue, defined, Stmt.annotate]
    rfl
  | .assign target value =>
    obtain ⟨found, expected, valueFound, place, targetFound, agrees⟩ :=
      (Stmt.verdict_assign_eq_ok_iff environment scopes target value).mp accepted
    simp only [Stmt.check, checkAssign, Expr.check_of_infer _ value valueFound, Checked.andThen,
      Checked.asPlace_of_isPlace _ _ place, Expr.check_of_infer _ target targetFound, Stmt.annotate]
  | .branch condition thenBranch elseBranch =>
    obtain ⟨conditionType, conditionFound, thenAccepted, elseAccepted, _⟩ :=
      (Stmt.verdict_branch_eq_ok_iff environment scopes condition thenBranch elseBranch).mp accepted
    have restored := Stmt.exit_of_scopes_check (thenBranch.scopes_check environment scopes.enter)
    have thenTree := Stmt.tree_check_of_verdict scopes.enter thenBranch thenAccepted
    have elseTree := tree_checkElse_of_verdict scopes elseBranch elseAccepted
    unfold Stmt.verdict at thenAccepted
    simp only [Stmt.check, Expr.check_of_infer _ condition conditionFound, CheckedBody.exitScope,
      thenAccepted, restored, thenTree, elseTree, Stmt.annotate]
  | .call callee args type =>
    obtain ⟨found, callFound⟩ := (Stmt.verdict_call_eq_ok_iff environment scopes callee args type).mp accepted
    simp only [Stmt.check, Expr.check_of_infer _ _ callFound, Expr.annotate, Expr.toStmt?, Option.getD,
      Stmt.annotate]
  | .block lines =>
    simp only [Stmt.check, CheckedBody.exitScope, Stmt.annotate,
      tree_checkLines_of_verdict scopes.enter lines accepted]

theorem tree_checkElse_of_verdict (scopes : Scopes) (branch : Option Stmt)
    (accepted : elseVerdict environment scopes branch = .ok ()) :
    (checkElse environment scopes branch).tree = annotateElse environment scopes branch := by
  match branch with
  | none => rfl
  | some branch =>
    simp only [checkElse, CheckedBody.exitScope, annotateElse,
      Stmt.tree_check_of_verdict scopes.enter branch accepted]

theorem tree_checkLines_of_verdict (scopes : Scopes) (lines : List Stmt)
    (accepted : linesVerdict environment scopes lines = .ok ()) :
    (checkLines environment scopes lines).tree = annotateLines environment scopes lines := by
  match lines with
  | [] => rfl
  | line :: lines =>
    obtain ⟨lineAccepted, rest⟩ := (linesVerdict_cons_eq_ok_iff environment scopes line lines).mp accepted
    have behind := line.scopes_check environment scopes
    have lineTree := Stmt.tree_check_of_verdict scopes line lineAccepted
    have restTree := tree_checkLines_of_verdict (line.scopesAfter scopes) lines rest
    unfold Stmt.verdict at lineAccepted
    simp only [lineAccepted] at behind
    simp only [checkLines, lineAccepted, behind, lineTree, restTree, annotateLines]

end

end Annotated

section Written

variable (environment : Environment)

theorem Expr.written_parts (context : Context) (expr : Expr) {type : Ty}
    (found : expr.infer context = .ok type) :
    ∀ part ∈ (expr.annotate context).parts, part.type?.isSome = true := by
  intro part member
  obtain ⟨type, written, _⟩ := expr.settled_parts context found part member
  exact Option.isSome_of_eq_some written

mutual

theorem Stmt.written_exprs (scopes : Scopes) (stmt : Stmt)
    (accepted : stmt.verdict environment scopes = .ok ()) :
    ∀ expr ∈ (stmt.annotate environment scopes).exprs, expr.type?.isSome = true := by
  match stmt with
  | .declare name type none => exact fun _ member => (nomatch member)
  | .declare name type (some value) =>
    obtain ⟨_, fits⟩ := (Stmt.verdict_declare_eq_ok_iff environment scopes name type _).mp accepted
    obtain ⟨_, found, _⟩ := (initializerVerdict_some_eq_ok_iff _ _ type value).mp fits
    exact value.written_parts ⟨environment, scopes⟩ found
  | .assign target value =>
    obtain ⟨_, _, valueFound, _, targetFound, _⟩ :=
      (Stmt.verdict_assign_eq_ok_iff environment scopes target value).mp accepted
    simp only [Stmt.annotate, Stmt.exprs, List.forall_mem_append]
    exact ⟨value.written_parts _ valueFound, target.written_parts _ targetFound⟩
  | .branch condition thenBranch elseBranch =>
    obtain ⟨_, conditionFound, thenAccepted, elseAccepted, _⟩ :=
      (Stmt.verdict_branch_eq_ok_iff environment scopes condition thenBranch elseBranch).mp accepted
    simp only [Stmt.annotate, Stmt.exprs, List.forall_mem_append]
    exact ⟨⟨condition.written_parts _ conditionFound,
      Stmt.written_exprs scopes.enter thenBranch thenAccepted⟩,
      written_elseExprs scopes elseBranch elseAccepted⟩
  | .call callee args type =>
    obtain ⟨_, found⟩ := (Stmt.verdict_call_eq_ok_iff environment scopes callee args type).mp accepted
    exact (Expr.call callee args type).written_parts ⟨environment, scopes⟩ found
  | .block lines => exact written_linesExprs scopes.enter lines accepted

theorem written_elseExprs (scopes : Scopes) (branch : Option Stmt)
    (accepted : elseVerdict environment scopes branch = .ok ()) :
    ∀ expr ∈ elseExprs (annotateElse environment scopes branch), expr.type?.isSome = true := by
  match branch with
  | none => exact fun _ member => (nomatch member)
  | some branch => exact Stmt.written_exprs scopes.enter branch accepted

theorem written_linesExprs (scopes : Scopes) (lines : List Stmt)
    (accepted : linesVerdict environment scopes lines = .ok ()) :
    ∀ expr ∈ linesExprs (annotateLines environment scopes lines), expr.type?.isSome = true := by
  match lines with
  | [] => exact fun _ member => (nomatch member)
  | line :: lines =>
    obtain ⟨lineAccepted, rest⟩ := (linesVerdict_cons_eq_ok_iff environment scopes line lines).mp accepted
    simp only [annotateLines, linesExprs, List.forall_mem_append]
    exact ⟨Stmt.written_exprs scopes line lineAccepted,
      written_linesExprs (line.scopesAfter scopes) lines rest⟩

end

end Written

end TypedTree
