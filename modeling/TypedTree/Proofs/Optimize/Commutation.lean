import TypedTree.Proofs.Optimize.Safety
/-! Folding before a check and folding behind it. The two orders give the same tree for programs in which
no quotient of two whole numbers is folded: every other fold keeps the type that a check finds. -/

namespace TypedTree

/-- A quotient whose operands are whole numbers once they are folded. -/
def Expr.IsWholeQuotient : Expr → Prop
  | .arithmetic .divide left right _ =>
    ∃ dividend divisor, Constant.ofExpr? left.fold.1 = some (.int dividend) ∧
      Constant.ofExpr? right.fold.1 = some (.int divisor)
  | _ => False

/-- The program itself has no quotient of two whole numbers; its imports may have some. -/
def Program.NoWholeQuotients (program : Program) : Prop := ∀ expr ∈ program.exprs, ¬expr.IsWholeQuotient

section Erased

@[simp] theorem Constant.ofExpr?_erase (expr : Expr) : ofExpr? expr.erase = ofExpr? expr := by
  cases expr <;> rfl

/-- Folding looks at the values of literals only. -/
theorem foldOperands?_of_erase (operator : Operator) {left right left' right' : Expr}
    (leftSame : left.erase = left'.erase) (rightSame : right.erase = right'.erase) :
    foldOperands? operator left right = foldOperands? operator left' right' := by
  unfold foldOperands?
  rw [← Constant.ofExpr?_erase left, ← Constant.ofExpr?_erase right, leftSame, rightSame,
    Constant.ofExpr?_erase, Constant.ofExpr?_erase]

mutual

theorem Expr.erase_fold_erase (expr : Expr) : expr.erase.fold.1.erase = expr.fold.1.erase := by
  match expr with
  | .call callee args type =>
    simp only [Expr.erase, Expr.fold, Expr.erase_fold_erase callee, eraseArgs_fold_erase args]
  | .arithmetic operator left right type =>
    have leftSame := Expr.erase_fold_erase left
    have rightSame := Expr.erase_fold_erase right
    have same := foldOperands?_of_erase operator leftSame rightSame
    rw [Expr.erase]
    cases value : foldOperands? operator left.fold.1 right.fold.1 with
    | some constant =>
      rw [Expr.fold_arithmetic_of_some type value, Expr.fold_arithmetic_of_some none (same.trans value)]
    | none =>
      rw [Expr.fold_arithmetic_of_none type value, Expr.fold_arithmetic_of_none none (same.trans value)]
      simp only [Expr.erase, leftSame, rightSame]
  | .index base position type =>
    simp only [Expr.erase, Expr.fold, Expr.erase_fold_erase base, Expr.erase_fold_erase position]
  | .property base name type => simp only [Expr.erase, Expr.fold, Expr.erase_fold_erase base]
  | .var .. | .string .. | .int .. | .bool .. | .real .. => simp only [Expr.erase, Expr.fold]

theorem eraseArgs_fold_erase (args : List Expr) :
    eraseArgs (foldArgs (eraseArgs args)).1 = eraseArgs (foldArgs args).1 := by
  match args with
  | [] => rfl
  | arg :: args =>
    simp only [eraseArgs, foldArgs, Expr.erase_fold_erase arg, eraseArgs_fold_erase args]

end

mutual

theorem Stmt.erase_fold_erase (stmt : Stmt) : stmt.erase.fold.1.erase = stmt.fold.1.erase := by
  match stmt with
  | .declare name type none => rfl
  | .declare name type (some value) =>
    simp only [Stmt.erase, Stmt.fold, Option.map, foldInitializer, Expr.erase_fold_erase]
  | .assign target value => simp only [Stmt.erase, Stmt.fold, Expr.erase_fold_erase]
  | .branch condition thenBranch elseBranch =>
    simp only [Stmt.erase, Stmt.fold, Expr.erase_fold_erase, Stmt.erase_fold_erase thenBranch,
      eraseElse_fold_erase elseBranch]
  | .call callee args type =>
    simp only [Stmt.erase, Stmt.fold, Expr.erase_fold_erase, eraseArgs_fold_erase]
  | .block lines => simp only [Stmt.erase, Stmt.fold, eraseLines_fold_erase lines]

theorem eraseElse_fold_erase (branch : Option Stmt) :
    eraseElse (foldElse (eraseElse branch)).1 = eraseElse (foldElse branch).1 := by
  match branch with
  | none => rfl
  | some branch => simp only [eraseElse, foldElse, Stmt.erase_fold_erase branch]

theorem eraseLines_fold_erase (lines : List Stmt) :
    eraseLines (foldLines (eraseLines lines)).1 = eraseLines (foldLines lines).1 := by
  match lines with
  | [] => rfl
  | line :: lines =>
    simp only [eraseLines, foldLines, Stmt.erase_fold_erase line, eraseLines_fold_erase lines]

end

theorem Decl.erase_fold_erase (decl : Decl) : decl.erase.fold.1.erase = decl.fold.1.erase := by
  cases decl with
  | object declaration => rfl
  | function declaration => simp only [erase, FunctionDecl.erase, fold, eraseLines_fold_erase]

theorem Program.erase_fold_of_erase {program other : Program} (same : program.erase = other.erase) :
    program.fold.1.erase = other.fold.1.erase := by
  obtain ⟨imports, decls⟩ := program
  obtain ⟨otherImports, otherDecls⟩ := other
  obtain ⟨importsSame, declsSame⟩ := Program.mk.inj same
  have folded : ∀ decls : List Decl, (foldDecls decls).1.map Decl.erase =
      (decls.map Decl.erase).map fun decl => decl.fold.1.erase := by
    intro decls
    rw [foldDecls_eq_map, List.map_map, List.map_map]
    exact List.map_congr_left fun decl _ => decl.erase_fold_erase.symm
  simp only [fold, erase, folded, importsSame, declsSame]

mutual

theorem Expr.parts_erase (expr : Expr) : expr.erase.parts = expr.parts.map Expr.erase := by
  match expr with
  | .call callee args type =>
    simp only [Expr.erase, Expr.parts, Expr.parts_erase callee, argsParts_erase args, List.map_append,
      List.map_cons, List.map_nil]
  | .arithmetic operator left right type =>
    simp only [Expr.erase, Expr.parts, Expr.parts_erase left, Expr.parts_erase right, List.map_append,
      List.map_cons, List.map_nil]
  | .index base position type =>
    simp only [Expr.erase, Expr.parts, Expr.parts_erase base, Expr.parts_erase position,
      List.map_append, List.map_cons, List.map_nil]
  | .property base name type =>
    simp only [Expr.erase, Expr.parts, Expr.parts_erase base, List.map_append, List.map_cons, List.map_nil]
  | .var .. | .string .. | .int .. | .bool .. | .real .. =>
    simp only [Expr.erase, Expr.parts, List.map_cons, List.map_nil]

theorem argsParts_erase (args : List Expr) : argsParts (eraseArgs args) = (argsParts args).map Expr.erase := by
  match args with
  | [] => rfl
  | arg :: args =>
    simp only [eraseArgs, argsParts, Expr.parts_erase arg, argsParts_erase args, List.map_append]

end

mutual

theorem Stmt.exprs_erase (stmt : Stmt) : stmt.erase.exprs = stmt.exprs.map Expr.erase := by
  match stmt with
  | .declare name type none => rfl
  | .declare name type (some value) =>
    simp only [Stmt.erase, Stmt.exprs, Option.map, Option.elim, Expr.parts_erase]
  | .assign target value => simp only [Stmt.erase, Stmt.exprs, Expr.parts_erase, List.map_append]
  | .branch condition thenBranch elseBranch =>
    simp only [Stmt.erase, Stmt.exprs, Expr.parts_erase, Stmt.exprs_erase thenBranch,
      elseExprs_erase elseBranch, List.map_append]
  | .call callee args type => exact Expr.parts_erase (.call callee args type)
  | .block lines => simp only [Stmt.erase, Stmt.exprs, linesExprs_erase lines]

theorem elseExprs_erase (branch : Option Stmt) :
    elseExprs (eraseElse branch) = (elseExprs branch).map Expr.erase := by
  match branch with
  | none => rfl
  | some branch => simp only [eraseElse, elseExprs, Stmt.exprs_erase branch]

theorem linesExprs_erase (lines : List Stmt) :
    linesExprs (eraseLines lines) = (linesExprs lines).map Expr.erase := by
  match lines with
  | [] => rfl
  | line :: lines =>
    simp only [eraseLines, linesExprs, Stmt.exprs_erase line, linesExprs_erase lines, List.map_append]

end

theorem Program.exprs_erase (program : Program) : program.erase.exprs = program.exprs.map Expr.erase := by
  obtain ⟨imports, decls⟩ := program
  simp only [erase, exprs, List.flatMap_map, List.map_flatMap]
  congr 1
  funext decl
  cases decl with
  | object declaration => rfl
  | function declaration => exact linesExprs_erase declaration.body

theorem Expr.isWholeQuotient_erase (expr : Expr) : expr.erase.IsWholeQuotient ↔ expr.IsWholeQuotient := by
  cases expr with
  | arithmetic operator left right type =>
    have value : ∀ expr : Expr, Constant.ofExpr? expr.erase.fold.1 = Constant.ofExpr? expr.fold.1 := by
      intro expr
      rw [← Constant.ofExpr?_erase expr.erase.fold.1, expr.erase_fold_erase, Constant.ofExpr?_erase]
    cases operator <;> simp only [erase, IsWholeQuotient, value]
  | _ => exact Iff.rfl

theorem Program.noWholeQuotients_of_erase {program other : Program} (same : program.erase = other.erase)
    (fractions : program.NoWholeQuotients) : other.NoWholeQuotients := by
  have erased : ∀ program : Program, program.NoWholeQuotients ↔ program.erase.NoWholeQuotients := by
    intro program
    simp only [NoWholeQuotients, exprs_erase, List.forall_mem_map, Expr.isWholeQuotient_erase]
  rw [erased, ← same, ← erased]
  exact fractions

end Erased

theorem Constant.type_combineInts? {operator : Operator} {left right : Int64} {constant : Constant}
    (folded : combineInts? operator left right = some constant) (fraction : operator ≠ .divide) :
    constant.type = if operator.isComparison then .bool else .int32 := by
  cases operator with
  | add | subtract | multiply => exact type_int32? folded
  | divide => exact absurd rfl fraction
  | _ =>
    simp only [combineInts?] at folded
    exact type_map_bool folded

theorem Constant.type_combine? {operator : Operator} {left right constant : Constant}
    (folded : combine? operator left right = some constant)
    (agrees : right.type.agrees left.type = true)
    (fraction : ∀ dividend divisor, operator = .divide → left = .int dividend → right ≠ .int divisor) :
    constant.type = if operator.isComparison then .bool else left.type := by
  rcases foldsTo_combine? folded with kept | ⟨whole, retyped⟩
  · exact kept
  · match left, right with
    | int dividend, int divisor =>
      exact type_combineInts? folded fun divides => fraction dividend divisor divides rfl rfl
    | int _, real _ | int _, string _ | int _, bool _ =>
      simp only [type] at agrees
      exact absurd agrees (by decide)
    | real _, _ | string _, _ | bool _, _ =>
      simp only [type] at whole
      cases operator <;> exact absurd whole (by decide)

section Expressions

variable {context : Context}

/-- The value of two operands that carry their types has the type of the whole, unless the whole is a
quotient of two whole numbers. -/
theorem Expr.Carries.type_foldOperands? {operator : Operator} {left right : Expr}
    {leftType rightType : Ty} {constant : Constant} (written : Option Ty)
    (leftCarries : left.Carries context leftType) (rightCarries : right.Carries context rightType)
    (leftKeeps : left.KeepsType) (rightKeeps : right.KeepsType)
    (agrees : rightType.agrees leftType = true)
    (fraction : ¬(Expr.arithmetic operator left right written).IsWholeQuotient)
    (value : foldOperands? operator left.fold.1 right.fold.1 = some constant) :
    constant.type = if operator.isComparison then .bool else leftType := by
  have typed : ∀ {expr : Expr} {type : Ty} {constant : Constant}, expr.Carries context type →
      expr.KeepsType → Constant.ofExpr? expr.fold.1 = some constant → constant.type = type := by
    intro expr type constant carries keeps found
    rw [KeepsType, carries.type?_eq, carries.fold_eq_literal found, Constant.type?_literal] at keeps
    exact Option.some.inj keeps
  obtain ⟨leftConstant, leftValue, rest⟩ := Option.bind_eq_some_iff.mp value
  obtain ⟨rightConstant, rightValue, combined⟩ := Option.bind_eq_some_iff.mp rest
  rw [← typed leftCarries leftKeeps leftValue]
  apply Constant.type_combine? combined
  · rw [typed leftCarries leftKeeps leftValue, typed rightCarries rightKeeps rightValue]
    exact agrees
  · intro dividend divisor divides leftWhole rightWhole
    subst divides leftWhole rightWhole
    exact fraction ⟨dividend, divisor, leftValue, rightValue⟩

mutual

theorem Expr.Carries.foldsSafely {expr : Expr} {type : Ty} (carries : expr.Carries context type)
    (fractions : ∀ part ∈ expr.parts, ¬part.IsWholeQuotient) : expr.FoldsSafely ∧ expr.KeepsType := by
  match expr with
  | .call callee args written =>
    obtain ⟨-, -, calleeCarries, params, -, argsCarry⟩ :=
      (Expr.carries_call_iff callee args written type).mp carries
    simp only [Expr.parts, List.forall_mem_append] at fractions
    exact ⟨⟨(calleeCarries.foldsSafely fractions.1.1).left,
      ArgsCarry.foldSafely argsCarry fractions.1.2⟩, rfl⟩
  | .arithmetic operator left right written =>
    have fraction := fractions _ (Expr.self_mem_parts _)
    obtain ⟨decorated, leftType, rightType, leftCarries, rightCarries, agrees, result⟩ :=
      (Expr.carries_arithmetic_iff operator left right written type).mp carries
    simp only [Expr.parts, List.forall_mem_append] at fractions
    obtain ⟨leftSafe, leftKeeps⟩ := leftCarries.foldsSafely fractions.1.1
    obtain ⟨rightSafe, rightKeeps⟩ := rightCarries.foldsSafely fractions.1.2
    refine ⟨.inr ⟨leftSafe, rightSafe, .inl ⟨leftKeeps, rightKeeps⟩⟩, ?_⟩
    cases value : foldOperands? operator left.fold.1 right.fold.1 with
    | none => rw [Expr.KeepsType, Expr.fold_arithmetic_of_none written value]; rfl
    | some constant =>
      have kept := leftCarries.type_foldOperands? written rightCarries leftKeeps rightKeeps agrees
        fraction value
      rw [Expr.KeepsType, Expr.fold_arithmetic_of_some written value, Constant.type?_literal, kept,
        ← result, ← decorated]
      rfl
  | .index base position written =>
    obtain ⟨-, -, _, _, baseCarries, positionCarries, -⟩ :=
      (Expr.carries_index_iff base position written type).mp carries
    simp only [Expr.parts, List.forall_mem_append] at fractions
    exact ⟨⟨(baseCarries.foldsSafely fractions.1.1).left, positionCarries.foldsSafely fractions.1.2⟩, rfl⟩
  | .property base name written =>
    obtain ⟨-, -, _, baseCarries, -⟩ := (Expr.carries_property_iff base name written type).mp carries
    simp only [Expr.parts, List.forall_mem_append] at fractions
    exact ⟨(baseCarries.foldsSafely fractions.1).left, rfl⟩
  | .var .. | .string .. | .int .. | .bool .. | .real .. => exact ⟨trivial, rfl⟩

theorem ArgsCarry.foldSafely {params : List Ty} {args : List Expr} (carry : ArgsCarry context params args)
    (fractions : ∀ part ∈ argsParts args, ¬part.IsWholeQuotient) : ArgsFoldSafely args := by
  match params, args with
  | _, [] => simp only [ArgsFoldSafely]
  | [], arg :: args => simp only [ArgsCarry] at carry
  | param :: params, arg :: args =>
    rw [ArgsCarry] at carry
    obtain ⟨⟨_, argCarries, -⟩, rest⟩ := carry
    simp only [argsParts, List.forall_mem_append] at fractions
    rw [ArgsFoldSafely]
    exact ⟨argCarries.foldsSafely fractions.1, ArgsCarry.foldSafely rest fractions.2⟩

end

end Expressions

section Statements

variable {environment : Environment}

mutual

theorem Stmt.Carries.foldsSafely {scopes : Scopes} {stmt : Stmt} (carries : stmt.Carries environment scopes)
    (fractions : ∀ part ∈ stmt.exprs, ¬part.IsWholeQuotient) : stmt.FoldsSafely := by
  match stmt with
  | .declare name type none => simp only [Stmt.FoldsSafely]
  | .declare name type (some value) =>
    obtain ⟨-, _, valueCarries, -⟩ := (Stmt.carries_define_iff environment scopes name type value).mp carries
    rw [Stmt.FoldsSafely]
    exact valueCarries.foldsSafely fractions
  | .assign target value =>
    obtain ⟨_, _, valueCarries, -, targetCarries, -⟩ :=
      (Stmt.carries_assign_iff environment scopes target value).mp carries
    simp only [Stmt.exprs, List.forall_mem_append] at fractions
    rw [Stmt.FoldsSafely]
    exact ⟨(targetCarries.foldsSafely fractions.2).left, valueCarries.foldsSafely fractions.1⟩
  | .branch condition thenBranch elseBranch =>
    obtain ⟨⟨_, conditionCarries, -⟩, thenCarries, elseCarries⟩ :=
      (Stmt.carries_branch_iff environment scopes condition thenBranch elseBranch).mp carries
    simp only [Stmt.exprs, List.forall_mem_append] at fractions
    rw [Stmt.FoldsSafely]
    exact ⟨conditionCarries.foldsSafely fractions.1.1, Stmt.Carries.foldsSafely thenCarries fractions.1.2,
      ElseCarries.foldsSafely elseCarries fractions.2⟩
  | .call callee args written =>
    obtain ⟨_, callCarries⟩ := (Stmt.carries_call_iff environment scopes callee args written).mp carries
    rw [Stmt.FoldsSafely]
    exact (callCarries.foldsSafely fractions).left
  | .block lines =>
    rw [Stmt.carries_block_iff] at carries
    rw [Stmt.FoldsSafely]
    exact LinesCarry.foldSafely carries fractions

theorem ElseCarries.foldsSafely {scopes : Scopes} {branch : Option Stmt}
    (carries : ElseCarries environment scopes branch)
    (fractions : ∀ part ∈ elseExprs branch, ¬part.IsWholeQuotient) : ElseFoldsSafely branch := by
  match branch with
  | none => simp only [ElseFoldsSafely]
  | some branch =>
    rw [elseCarries_some_iff] at carries
    rw [ElseFoldsSafely]
    exact Stmt.Carries.foldsSafely carries fractions

theorem LinesCarry.foldSafely {scopes : Scopes} {lines : List Stmt}
    (carry : LinesCarry environment scopes lines)
    (fractions : ∀ part ∈ linesExprs lines, ¬part.IsWholeQuotient) : LinesFoldSafely lines := by
  match lines with
  | [] => simp only [LinesFoldSafely]
  | line :: lines =>
    obtain ⟨lineCarries, restCarry⟩ := (linesCarry_cons_iff environment scopes line lines).mp carry
    simp only [linesExprs, List.forall_mem_append] at fractions
    rw [LinesFoldSafely]
    exact ⟨Stmt.Carries.foldsSafely lineCarries fractions.1, LinesCarry.foldSafely restCarry fractions.2⟩

end

end Statements

section Programs

theorem Decl.foldsSafely_of_checkBody {environment : Except Error Environment} {decl : Decl}
    (accepted : checkBody environment decl = .ok decl)
    (fractions : ∀ part ∈ decl.exprs, ¬part.IsWholeQuotient) : decl.FoldsSafely := by
  cases decl with
  | object declaration => exact trivial
  | function declaration =>
    cases environment with
    | error error => cases accepted
    | ok environment =>
      rw [checkBody_function_eq_self_iff] at accepted
      exact accepted.foldSafely fractions

theorem Program.foldsSafely_of_checkBodiesApart {program : Program}
    (accepted : program.checkBodiesApart = .ok program) (fractions : program.NoWholeQuotients) :
    program.FoldsSafely := by
  obtain ⟨imports, decls⟩ := program
  obtain ⟨-, declsDone⟩ := (checkBodiesApart_eq_self_iff imports decls).mp accepted
  intro decl member
  refine Decl.foldsSafely_of_checkBody (declsDone decl member) fun part inside => ?_
  exact fractions part (List.mem_flatMap.mpr ⟨decl, member, inside⟩)

/-- A check of the optimized program gives the optimized check, provided that the program itself has no
quotient of two whole numbers. -/
theorem Program.check_optimize_eq {program checked : Program} (coherent : program.Coherent)
    (accepted : program.check = .ok checked) (fractions : program.NoWholeQuotients) :
    (Pass.optimize Pass.defaults program).1.check = .ok (Pass.optimize Pass.defaults checked).1 := by
  have bodies := checkBodiesApart_of_check coherent accepted
  have same := erase_of_checkBodiesApart bodies
  have checkedCoherent := coherent_of_checkBodiesApart coherent bodies
  have again := check_of_checked coherent accepted
  have safe := foldsSafely_of_checkBodiesApart (checkBodiesApart_of_check checkedCoherent again)
    (noWholeQuotients_of_erase same.symm fractions)
  rw [Pass.optimize_defaults, Pass.optimize_defaults, ← (check_fold_iff checkedCoherent again).mpr safe]
  exact check_of_erase_eq coherent.fold checkedCoherent.fold (erase_fold_of_erase same.symm)

/-- A sum out of range stays, and so does the quotient of a variable, with a divisor that is folded. -/
theorem Program.check_optimize_eq_overflow :
    let main := fun written : Option Ty => Program.mk [] [.function
      { name := "main", returns := .void
        body := [
          .declare "x" .int32
            (some (.arithmetic .add (.int 2147483647 written) (.int 1 written) written)),
          .assign (.var "x" written) (.arithmetic .divide (.var "x" written)
            (.arithmetic .add (.int 1 written) (.int 1 written) written) written)] }]
    (main none).Coherent ∧ (main none).check = .ok (main (some .int32)) ∧ (main none).NoWholeQuotients ∧
      (Pass.optimize Pass.defaults (main none)).1.check =
        .ok (Pass.optimize Pass.defaults (main (some .int32))).1 := by
  intro main
  have coherent : (main none).Coherent := nofun
  have accepted : (main none).check = .ok (main (some .int32)) := rfl
  have fractions : (main none).NoWholeQuotients := by
    simp [main, NoWholeQuotients, exprs, Decl.exprs, linesExprs, Stmt.exprs, Expr.parts,
      Expr.IsWholeQuotient, Expr.fold, Constant.ofExpr?]
  exact ⟨coherent, accepted, fractions, Program.check_optimize_eq coherent accepted fractions⟩

end Programs

end TypedTree
