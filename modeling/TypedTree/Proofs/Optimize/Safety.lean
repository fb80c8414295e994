import TypedTree.Proofs.Check.Recheck
import TypedTree.Proofs.Optimize.Retyping
/-! Which optimized programs are still well typed. An expression that folding retypes does no harm where
it is folded away, or next to another one in a comparison; anywhere else the program is refused. -/

namespace TypedTree

mutual

/-- Where folding retypes a part of the expression, nothing depends on the old type. -/
def Expr.FoldsSafely : Expr → Prop
  | .call callee args _ => callee.FoldsSafely ∧ ArgsFoldSafely args
  | .arithmetic operator left right _ =>
    (foldOperands? operator left.fold.1 right.fold.1).isSome = true ∨
      -- Two retyped operands of a comparison are only left if one is a NaN, in no order with the other.
      (left.FoldsSafely ∧ right.FoldsSafely ∧
        (left.KeepsType ∧ right.KeepsType ∨
          operator.isComparison = true ∧ ¬left.KeepsType ∧ ¬right.KeepsType))
  | .index base position _ => base.FoldsSafely ∧ position.FoldsSafely ∧ position.KeepsType
  | .property base _ _ => base.FoldsSafely
  | .var .. | .string .. | .int .. | .bool .. | .real .. => True

def ArgsFoldSafely : List Expr → Prop
  | [] => True
  | arg :: args => (arg.FoldsSafely ∧ arg.KeepsType) ∧ ArgsFoldSafely args

end

mutual

/-- No value that the statement stores, passes on or tests is retyped. -/
def Stmt.FoldsSafely : Stmt → Prop
  | .declare _ _ none => True
  | .declare _ _ (some value) => value.FoldsSafely ∧ value.KeepsType
  | .assign target value => target.FoldsSafely ∧ value.FoldsSafely ∧ value.KeepsType
  | .branch condition thenBranch elseBranch =>
    (condition.FoldsSafely ∧ condition.KeepsType) ∧ thenBranch.FoldsSafely ∧ ElseFoldsSafely elseBranch
  | .call callee args type => (Expr.call callee args type).FoldsSafely
  | .block lines => LinesFoldSafely lines

def ElseFoldsSafely : Option Stmt → Prop
  | none => True
  | some branch => branch.FoldsSafely

def LinesFoldSafely : List Stmt → Prop
  | [] => True
  | line :: lines => line.FoldsSafely ∧ LinesFoldSafely lines

end

def Decl.FoldsSafely : Decl → Prop
  | .function declaration => LinesFoldSafely declaration.body
  | .object _ => True

/-- Folding is safe in every function body of the program itself. -/
def Program.FoldsSafely (program : Program) : Prop := ∀ decl ∈ program.decls, decl.FoldsSafely

section Expressions

variable {context : Context}

theorem Expr.Carries.agrees_fold_iff {expr : Expr} {type expected : Ty}
    (carries : expr.Carries context type) (agrees : type.agrees expected = true)
    (foldIff : (∃ folded, expr.fold.1.Carries context folded) ↔ expr.FoldsSafely) :
    (∃ folded, expr.fold.1.Carries context folded ∧ folded.agrees expected = true) ↔
      expr.FoldsSafely ∧ expr.KeepsType := by
  rw [← foldIff]
  constructor
  · intro again
    obtain ⟨folded, foldedCarries, foldedAgrees⟩ := again
    refine ⟨⟨folded, foldedCarries⟩, (carries.keepsType_iff foldedCarries).mpr ?_⟩
    exact ((carries.foldsTo_of_fold foldedCarries).agrees_iff agrees).mp foldedAgrees
  · intro safe
    obtain ⟨⟨folded, foldedCarries⟩, keeps⟩ := safe
    rw [carries.keepsType_iff foldedCarries] at keeps
    rw [keeps] at foldedCarries
    exact ⟨type, foldedCarries, agrees⟩

theorem Expr.Carries.same_fold_iff {expr : Expr} {type : Ty} (carries : expr.Carries context type)
    (keeps : expr.KeepsType)
    (foldIff : (∃ folded, expr.fold.1.Carries context folded) ↔ expr.FoldsSafely) :
    expr.fold.1.Carries context type ↔ expr.FoldsSafely := by
  rw [← foldIff]
  constructor
  · exact fun foldedCarries => ⟨type, foldedCarries⟩
  · intro again
    obtain ⟨folded, foldedCarries⟩ := again
    rw [carries.keepsType_iff foldedCarries] at keeps
    rw [keeps] at foldedCarries
    exact foldedCarries

theorem Expr.Carries.operands_fold_iff (operator : Operator) {left right : Expr}
    {leftType rightType leftFolded rightFolded : Ty} (leftCarries : left.Carries context leftType)
    (rightCarries : right.Carries context rightType) (agrees : rightType.agrees leftType = true)
    (leftAgain : left.fold.1.Carries context leftFolded)
    (rightAgain : right.fold.1.Carries context rightFolded) :
    (rightFolded.agrees leftFolded = true ∧
      (if operator.isComparison then .bool else leftType) =
        if operator.isComparison then .bool else leftFolded) ↔
      left.KeepsType ∧ right.KeepsType ∨
        operator.isComparison = true ∧ ¬left.KeepsType ∧ ¬right.KeepsType := by
  rw [leftCarries.keepsType_iff leftAgain, rightCarries.keepsType_iff rightAgain]
  exact Ty.FoldsTo.operands_iff operator (leftCarries.foldsTo_of_fold leftAgain)
    (rightCarries.foldsTo_of_fold rightAgain) agrees

mutual

/-- The folded expression is well typed and carries its types exactly if folding is safe. -/
theorem Expr.Carries.fold_iff {expr : Expr} {type : Ty} (carries : expr.Carries context type) :
    (∃ folded, expr.fold.1.Carries context folded) ↔ expr.FoldsSafely := by
  match expr with
  | .call callee args written =>
    obtain ⟨decorated, place, calleeCarries, params, signature, argsCarry⟩ :=
      (Expr.carries_call_iff callee args written type).mp carries
    have calleeIff := calleeCarries.same_fold_iff (Expr.keepsType_of_isPlace place) calleeCarries.fold_iff
    have argsIff := ArgsCarry.fold_iff argsCarry
    simp only [Expr.fold, Expr.carries_call_iff, Expr.isPlace_fold, Expr.FoldsSafely, ← calleeIff, ← argsIff]
    constructor
    · intro again
      obtain ⟨folded, sameDecorated, -, foldedCarries, foldedParams, foldedSignature, foldedArgs⟩ := again
      rw [decorated] at sameDecorated
      cases sameDecorated
      rw [signature] at foldedSignature
      cases foldedSignature
      exact ⟨foldedCarries, foldedArgs⟩
    · intro safe
      obtain ⟨foldedCarries, foldedArgs⟩ := safe
      exact ⟨type, decorated, place, foldedCarries, params, signature, foldedArgs⟩
  | .arithmetic operator left right written =>
    obtain ⟨decorated, leftType, rightType, leftCarries, rightCarries, agrees, result⟩ :=
      (Expr.carries_arithmetic_iff operator left right written type).mp carries
    rw [Expr.FoldsSafely]
    cases value : foldOperands? operator left.fold.1 right.fold.1 with
    | some constant =>
      rw [Expr.fold_arithmetic_of_some written value]
      exact iff_of_true ⟨constant.type, constant.carries_literal context⟩ (.inl rfl)
    | none =>
      rw [Expr.fold_arithmetic_of_none written value, ← leftCarries.fold_iff, ← rightCarries.fold_iff]
      simp only [Expr.carries_arithmetic_iff, Option.isSome_none, Bool.false_eq_true, false_or]
      constructor
      · intro again
        obtain ⟨folded, sameDecorated, leftFolded, rightFolded, leftAgain, rightAgain, agreesAgain,
          resultAgain⟩ := again
        rw [decorated] at sameDecorated
        cases sameDecorated
        have operands := (leftCarries.operands_fold_iff operator rightCarries agrees leftAgain
          rightAgain).mp ⟨agreesAgain, result.symm.trans resultAgain⟩
        exact ⟨⟨leftFolded, leftAgain⟩, ⟨rightFolded, rightAgain⟩, operands⟩
      · intro safe
        obtain ⟨⟨leftFolded, leftAgain⟩, ⟨rightFolded, rightAgain⟩, operands⟩ := safe
        obtain ⟨agreesAgain, resultAgain⟩ := (leftCarries.operands_fold_iff operator rightCarries
          agrees leftAgain rightAgain).mpr operands
        exact ⟨type, decorated, leftFolded, rightFolded, leftAgain, rightAgain, agreesAgain,
          result.trans resultAgain⟩
  | .index base position written =>
    obtain ⟨decorated, place, baseType, positionType, baseCarries, positionCarries, array, indexer,
      result⟩ := (Expr.carries_index_iff base position written type).mp carries
    -- the base is a place, which folding never retypes
    have baseIff := baseCarries.same_fold_iff (Expr.keepsType_of_isPlace place) baseCarries.fold_iff
    simp only [Expr.fold, Expr.carries_index_iff, Expr.isPlace_fold, Expr.FoldsSafely, ← baseIff,
      ← positionCarries.fold_iff]
    constructor
    · intro again
      obtain ⟨_, _, _, baseFolded, positionFolded, baseAgain, positionAgain, _, indexerAgain, _⟩ := again
      have baseKeeps := (baseCarries.keepsType_iff baseAgain).mp (Expr.keepsType_of_isPlace place)
      rw [baseKeeps] at baseAgain
      have positionSame := ((positionCarries.foldsTo_of_fold positionAgain).isIndexer_iff indexer).mp
        indexerAgain
      exact ⟨baseAgain, ⟨positionFolded, positionAgain⟩,
        (positionCarries.keepsType_iff positionAgain).mpr positionSame⟩
    · intro safe
      obtain ⟨baseAgain, ⟨positionFolded, positionAgain⟩, keeps⟩ := safe
      rw [positionCarries.keepsType_iff positionAgain] at keeps
      rw [keeps] at positionAgain
      exact ⟨type, decorated, place, baseType, positionType, baseAgain, positionAgain, array, indexer,
        result⟩
  | .property base name written =>
    obtain ⟨decorated, allowed, baseType, baseCarries, owned⟩ :=
      (Expr.carries_property_iff base name written type).mp carries
    have keeps := Expr.keepsType_of_isPropertyBase allowed
    have baseIff := baseCarries.same_fold_iff keeps baseCarries.fold_iff
    simp only [Expr.fold, Expr.carries_property_iff, Expr.isPropertyBase_fold, Expr.FoldsSafely, ← baseIff]
    constructor
    · intro again
      obtain ⟨_, _, _, baseFolded, baseAgain, _⟩ := again
      rw [(baseCarries.keepsType_iff baseAgain).mp keeps] at baseAgain
      exact baseAgain
    · exact fun baseAgain => ⟨type, decorated, allowed, baseType, baseAgain, owned⟩
  | .var .. | .string .. | .int .. | .bool .. | .real .. =>
    simp only [Expr.FoldsSafely, iff_true]
    exact ⟨type, carries⟩

theorem ArgsCarry.fold_iff {params : List Ty} {args : List Expr} (carry : ArgsCarry context params args) :
    ArgsCarry context params (foldArgs args).1 ↔ ArgsFoldSafely args := by
  match params, args with
  | params, [] => simp only [foldArgs, ArgsCarry, ArgsFoldSafely]
  | [], arg :: args => simp only [ArgsCarry] at carry
  | param :: params, arg :: args =>
    rw [ArgsCarry] at carry
    obtain ⟨⟨found, argCarries, agrees⟩, rest⟩ := carry
    rw [foldArgs, ArgsCarry, ArgsFoldSafely, argCarries.agrees_fold_iff agrees argCarries.fold_iff,
      ArgsCarry.fold_iff rest]

end

end Expressions

section Statements

variable {environment : Environment} {scopes : Scopes}

@[simp] theorem Stmt.scopesAfter_fold (scopes : Scopes) (stmt : Stmt) :
    stmt.fold.1.scopesAfter scopes = stmt.scopesAfter scopes := by
  cases stmt <;> rfl

mutual

theorem Stmt.Carries.fold_iff {scopes : Scopes} {stmt : Stmt} (carries : stmt.Carries environment scopes) :
    stmt.fold.1.Carries environment scopes ↔ stmt.FoldsSafely := by
  match stmt with
  | .declare name type none =>
    simp only [Stmt.FoldsSafely, iff_true]
    exact carries
  | .declare name type (some value) =>
    obtain ⟨fresh, found, valueCarries, agrees⟩ :=
      (Stmt.carries_define_iff environment scopes name type value).mp carries
    rw [Stmt.fold, foldInitializer, Stmt.carries_define_iff, Stmt.FoldsSafely,
      valueCarries.agrees_fold_iff agrees valueCarries.fold_iff]
    exact and_iff_right fresh
  | .assign target value =>
    obtain ⟨found, expected, valueCarries, place, targetCarries, agrees⟩ :=
      (Stmt.carries_assign_iff environment scopes target value).mp carries
    have keeps := Expr.keepsType_of_isPlace place
    have targetIff := targetCarries.same_fold_iff keeps targetCarries.fold_iff
    have valueIff := valueCarries.agrees_fold_iff agrees valueCarries.fold_iff
    rw [Stmt.fold, Stmt.carries_assign_iff, Stmt.FoldsSafely, ← targetIff, ← valueIff]
    constructor
    · intro again
      obtain ⟨valueFolded, targetFolded, valueAgain, -, targetAgain, agreesAgain⟩ := again
      obtain rfl := (targetCarries.keepsType_iff targetAgain).mp keeps
      exact ⟨targetAgain, valueFolded, valueAgain, agreesAgain⟩
    · intro safe
      obtain ⟨targetAgain, valueFolded, valueAgain, agreesAgain⟩ := safe
      exact ⟨valueFolded, expected, valueAgain, target.isPlace_fold.trans place, targetAgain, agreesAgain⟩
  | .branch condition thenBranch elseBranch =>
    obtain ⟨⟨conditionType, conditionCarries, agrees⟩, thenCarries, elseCarries⟩ :=
      (Stmt.carries_branch_iff environment scopes condition thenBranch elseBranch).mp carries
    rw [Stmt.fold, Stmt.carries_branch_iff, Stmt.FoldsSafely, Stmt.Carries.fold_iff thenCarries,
      ElseCarries.fold_iff elseCarries,
      conditionCarries.agrees_fold_iff agrees conditionCarries.fold_iff]
  | .call callee args written =>
    obtain ⟨found, callCarries⟩ := (Stmt.carries_call_iff environment scopes callee args written).mp carries
    rw [Stmt.fold, Stmt.carries_call_iff, Stmt.FoldsSafely, ← callCarries.fold_iff]
    rfl
  | .block lines =>
    rw [Stmt.carries_block_iff] at carries
    rw [Stmt.fold, Stmt.carries_block_iff, Stmt.FoldsSafely, LinesCarry.fold_iff carries]

theorem ElseCarries.fold_iff {scopes : Scopes} {branch : Option Stmt}
    (carries : ElseCarries environment scopes branch) :
    ElseCarries environment scopes (foldElse branch).1 ↔ ElseFoldsSafely branch := by
  match branch with
  | none =>
    simp only [ElseFoldsSafely, iff_true]
    exact carries
  | some branch =>
    rw [elseCarries_some_iff] at carries
    rw [foldElse, elseCarries_some_iff, ElseFoldsSafely, Stmt.Carries.fold_iff carries]

theorem LinesCarry.fold_iff {scopes : Scopes} {lines : List Stmt}
    (carry : LinesCarry environment scopes lines) :
    LinesCarry environment scopes (foldLines lines).1 ↔ LinesFoldSafely lines := by
  match lines with
  | [] =>
    simp only [LinesFoldSafely, iff_true]
    exact carry
  | line :: lines =>
    obtain ⟨lineCarries, restCarry⟩ := (linesCarry_cons_iff environment scopes line lines).mp carry
    rw [foldLines, linesCarry_cons_iff, LinesFoldSafely, Stmt.Carries.fold_iff lineCarries,
      Stmt.scopesAfter_fold, LinesCarry.fold_iff restCarry]

end

end Statements

section Programs

theorem Decl.checkBody_function_eq_self_iff (environment : Environment) (declaration : FunctionDecl) :
    checkBody (.ok environment) (.function declaration) = .ok (.function declaration) ↔
      LinesCarry environment (declaration.scopes environment) declaration.body := by
  rw [checkBody_function, LinesCarry]
  cases judged : declaration.verdict environment with
  | error problem =>
    rw [FunctionDecl.verdict] at judged
    simp only [judged, reduceCtorEq, false_and]
  | ok =>
    rw [FunctionDecl.verdict] at judged
    simp only [judged, Except.ok.injEq, function.injEq, true_and]
    exact ⟨congrArg FunctionDecl.body, fun same => congrArg (fun body => { declaration with body }) same⟩

theorem Decl.checkBody_fold_iff {environment : Except Error Environment} {decl : Decl}
    (accepted : checkBody environment decl = .ok decl) :
    checkBody environment decl.fold.1 = .ok decl.fold.1 ↔ decl.FoldsSafely := by
  cases decl with
  | object declaration => exact iff_of_true accepted trivial
  | function declaration =>
    cases environment with
    | error error => cases accepted
    | ok environment =>
      rw [checkBody_function_eq_self_iff] at accepted
      rw [fold, checkBody_function_eq_self_iff]
      exact accepted.fold_iff

theorem foldDecls_eq_map (decls : List Decl) : (foldDecls decls).1 = decls.map fun decl => decl.fold.1 := by
  induction decls with
  | nil => rfl
  | cons decl decls ih => rw [foldDecls, ih, List.map_cons]

theorem Environment.ofProgram_fold (program : Program) : ofProgram program.fold.1 = ofProgram program := by
  have declared : ∀ environment : Environment, environment.declareAll (foldDecls program.decls).1 =
      environment.declareAll program.decls := by
    intro environment
    rw [foldDecls_eq_map, declareAll, List.foldl_map]
    congr 1
    funext environment decl
    cases decl <;> rfl
  simp only [ofProgram, Program.fold, declared]

mutual

theorem Stmt.typeEvents_fold (stmt : Stmt) : stmt.fold.1.typeEvents = stmt.typeEvents := by
  match stmt with
  | .branch _ thenBranch elseBranch =>
    simp only [Stmt.fold, Stmt.typeEvents, Stmt.typeEvents_fold thenBranch, elseTypeEvents_fold elseBranch]
  | .block lines => simp only [Stmt.fold, Stmt.typeEvents, linesTypeEvents_fold lines]
  | .declare .. | .assign .. | .call .. => simp only [Stmt.fold, Stmt.typeEvents]

theorem elseTypeEvents_fold (branch : Option Stmt) :
    elseTypeEvents (foldElse branch).1 = elseTypeEvents branch := by
  match branch with
  | none => rfl
  | some branch => simp only [foldElse, elseTypeEvents, Stmt.typeEvents_fold branch]

theorem linesTypeEvents_fold (lines : List Stmt) :
    linesTypeEvents (foldLines lines).1 = linesTypeEvents lines := by
  match lines with
  | [] => rfl
  | line :: lines =>
    simp only [foldLines, linesTypeEvents, Stmt.typeEvents_fold line, linesTypeEvents_fold lines]

end

theorem Decl.typeEvents_fold (decl : Decl) : decl.fold.1.typeEvents = decl.typeEvents := by
  cases decl with
  | object declaration => rfl
  | function declaration => simp only [fold, typeEvents, linesTypeEvents_fold]

theorem Program.typeEventsApart_fold (program : Program) :
    program.fold.1.typeEventsApart = program.typeEventsApart := by
  obtain ⟨imports, decls⟩ := program
  simp only [fold, typeEventsApart, foldDecls_eq_map, List.flatMap_map, Decl.typeEvents_fold]

theorem Program.checkBodiesApart_eq_self_iff (imports : List Import) (decls : List Decl) :
    (Program.mk imports decls).checkBodiesApart = .ok ⟨imports, decls⟩ ↔
      importsCheckBodiesApart imports = .ok imports ∧
        ∀ decl ∈ decls, decl.checkBody (Environment.ofProgram ⟨imports, decls⟩) = .ok decl := by
  have each : decls.mapM (Decl.checkBody (Environment.ofProgram ⟨imports, decls⟩)) = .ok decls ↔
      ∀ decl ∈ decls, decl.checkBody (Environment.ofProgram ⟨imports, decls⟩) = .ok decl :=
    mapM_eq_ok_iff.trans List.forall₂_same
  rw [checkBodiesApart_eq_ok_iff, ← each]
  constructor
  · intro again
    obtain ⟨checkedImports, checkedDecls, importsDone, declsDone, same⟩ := again
    cases same
    exact ⟨importsDone, declsDone⟩
  · intro safe
    obtain ⟨importsDone, declsDone⟩ := safe
    exact ⟨imports, decls, importsDone, declsDone, rfl⟩

theorem Program.checkBodiesApart_fold_iff {program : Program}
    (accepted : program.checkBodiesApart = .ok program) :
    program.fold.1.checkBodiesApart = .ok program.fold.1 ↔ program.FoldsSafely := by
  obtain ⟨imports, decls⟩ := program
  have environment := Environment.ofProgram_fold ⟨imports, decls⟩
  obtain ⟨importsDone, declsDone⟩ := (checkBodiesApart_eq_self_iff imports decls).mp accepted
  simp only [fold] at environment ⊢
  rw [checkBodiesApart_eq_self_iff, environment, foldDecls_eq_map, List.forall_mem_map,
    and_iff_right importsDone]
  exact forall₂_congr fun decl member => Decl.checkBody_fold_iff (declsDone decl member)

theorem Program.Coherent.fold {program : Program} (coherent : program.Coherent) :
    program.fold.1.Coherent := by
  obtain ⟨imports, decls⟩ := program
  exact coherent

theorem Program.check_fold_iff {program : Program} (coherent : program.Coherent)
    (accepted : program.check = .ok program) :
    program.fold.1.check = .ok program.fold.1 ↔ program.FoldsSafely := by
  have foldedCoherent := coherent.fold
  rw [check_eq_checkApart coherent, checkApart, bind_eq_ok_iff] at accepted
  obtain ⟨declared, met, bodies⟩ := accepted
  rw [check_eq_checkApart foldedCoherent, checkApart, typeEventsApart_fold, met,
    ← checkBodiesApart_fold_iff bodies]
  rfl

/-- The optimized program is well typed, with the right types on all expressions, exactly if no value in
the checked program that something depends on is retyped. -/
theorem Program.check_optimize_iff {program checked : Program} (coherent : program.Coherent)
    (accepted : program.check = .ok checked) :
    let optimized := (Pass.optimize Pass.defaults checked).1
    optimized.check = .ok optimized ↔ checked.FoldsSafely := by
  have bodies := checkBodiesApart_of_check coherent accepted
  simp only [Pass.optimize_defaults]
  exact check_fold_iff (coherent_of_checkBodiesApart coherent bodies) (check_of_checked coherent accepted)

/-- The quotient of two whole numbers is a real, and cannot be stored as a whole number again. -/
theorem Program.check_optimize_iff_quotient :
    let main := fun written : Option Ty => Program.mk [] [.function
      { name := "main", returns := .void
        body := [.declare "x" .int32
          (some (.arithmetic .divide (.int 4 written) (.int 2 written) written))] }]
    let optimized := (Pass.optimize Pass.defaults (main (some .int32))).1
    (main none).Coherent ∧ (main none).check = .ok (main (some .int32)) ∧
      optimized.check ≠ .ok optimized := by
  intro main optimized
  have coherent : (main none).Coherent := nofun
  have accepted : (main none).check = .ok (main (some .int32)) := rfl
  refine ⟨coherent, accepted, fun kept => ?_⟩
  have safe := (Program.check_optimize_iff coherent accepted).mp kept
  have stored : Expr.KeepsType (.arithmetic .divide (.int 4 _) (.int 2 _) _) :=
    (safe _ (.head _)).left.right
  have lost : some Ty.real64 = some Ty.int32 := stored
  exact absurd lost (by decide)

end Programs

end TypedTree
