import TypedTree.Optimize.Rounds
/-! Constant folding is done after one round: folding a folded tree changes nothing, and says so. -/

namespace TypedTree

@[simp] theorem Constant.fold_literal (constant : Constant) :
    constant.literal.fold = (constant.literal, false) := by
  cases constant <;> rfl

mutual

theorem Expr.fold_fold (expr : Expr) : expr.fold.1.fold = (expr.fold.1, false) := by
  match expr with
  | .call callee args type =>
    simp only [Expr.fold, Expr.fold_fold callee, foldArgs_fold args, Bool.or_self]
  | .arithmetic operator left right type =>
    have leftDone := Expr.fold_fold left
    have rightDone := Expr.fold_fold right
    rw [Expr.fold]
    cases value : foldOperands? operator left.fold.1 right.fold.1 with
    | some constant => exact constant.fold_literal
    | none => simp only [Expr.fold, leftDone, rightDone, value, Bool.or_self]
  | .index base position type =>
    simp only [Expr.fold, Expr.fold_fold base, Expr.fold_fold position, Bool.or_self]
  | .property base name type => simp only [Expr.fold, Expr.fold_fold base]
  | .var .. | .string .. | .int .. | .bool .. | .real .. => simp only [Expr.fold]

theorem foldArgs_fold (args : List Expr) : foldArgs (foldArgs args).1 = ((foldArgs args).1, false) := by
  match args with
  | [] => rfl
  | arg :: args => simp only [foldArgs, Expr.fold_fold arg, foldArgs_fold args, Bool.or_self]

end

theorem foldInitializer_fold (value : Option Expr) :
    foldInitializer (foldInitializer value).1 = ((foldInitializer value).1, false) := by
  cases value with
  | none => rfl
  | some value => simp only [foldInitializer, Expr.fold_fold]

mutual

theorem Stmt.fold_fold (stmt : Stmt) : stmt.fold.1.fold = (stmt.fold.1, false) := by
  match stmt with
  | .declare name type value => simp only [Stmt.fold, foldInitializer_fold]
  | .assign target value => simp only [Stmt.fold, Expr.fold_fold, Bool.or_self]
  | .branch condition thenBranch elseBranch =>
    simp only [Stmt.fold, Expr.fold_fold, Stmt.fold_fold thenBranch, foldElse_fold elseBranch, Bool.or_self]
  | .call callee args type => simp only [Stmt.fold, Expr.fold_fold, foldArgs_fold, Bool.or_self]
  | .block lines => simp only [Stmt.fold, foldLines_fold lines]

theorem foldElse_fold (branch : Option Stmt) :
    foldElse (foldElse branch).1 = ((foldElse branch).1, false) := by
  match branch with
  | none => rfl
  | some branch => simp only [foldElse, Stmt.fold_fold branch]

theorem foldLines_fold (lines : List Stmt) :
    foldLines (foldLines lines).1 = ((foldLines lines).1, false) := by
  match lines with
  | [] => rfl
  | line :: lines => simp only [foldLines, Stmt.fold_fold line, foldLines_fold lines, Bool.or_self]

end

theorem Decl.fold_fold (decl : Decl) : decl.fold.1.fold = (decl.fold.1, false) := by
  cases decl with
  | object declaration => rfl
  | function declaration => simp only [Decl.fold, foldLines_fold]

theorem foldDecls_fold (decls : List Decl) :
    foldDecls (foldDecls decls).1 = ((foldDecls decls).1, false) := by
  induction decls with
  | nil => rfl
  | cons decl decls ih => simp only [foldDecls, Decl.fold_fold, ih, Bool.or_self]

theorem Program.fold_fold (program : Program) : program.fold.1.fold = (program.fold.1, false) := by
  simp only [fold, foldDecls_fold]

theorem Pass.runOnce_defaults (program : Program) : runOnce defaults program = program.fold := by
  simp only [defaults, runOnce, folding, Bool.or_false]

/-- Of two rounds or more, the second changes nothing. -/
theorem Pass.runRounds_defaults (limit : Nat) (program : Program) :
    runRounds defaults (limit + 2) program = (program.fold.1, if program.fold.2 then 1 else 0) := by
  rw [runRounds, runOnce_defaults]
  cases program.fold.2 with
  | false => rfl
  | true =>
    simp only [if_true]
    rw [runRounds, runOnce_defaults, Program.fold_fold]
    rfl

/-- The optimizer that nothing else is asked of leaves what a single round of folding leaves. -/
theorem Pass.optimize_defaults (program : Program) : (optimize defaults program).1 = program.fold.1 :=
  congrArg Prod.fst (runRounds_defaults 8 program)

section Flags

mutual

theorem Expr.fold_eq_self_iff (expr : Expr) : expr.fold.1 = expr ↔ expr.fold.2 = false := by
  match expr with
  | .call callee args type =>
    simp only [Expr.fold, Expr.call.injEq, and_true, Bool.or_eq_false_iff, Expr.fold_eq_self_iff callee,
      foldArgs_eq_self_iff args]
  | .arithmetic operator left right type =>
    rw [Expr.fold]
    cases value : foldOperands? operator left.fold.1 right.fold.1 with
    | some constant => cases constant <;> exact iff_of_false nofun nofun
    | none =>
      simp only [Expr.arithmetic.injEq, true_and, and_true, Bool.or_eq_false_iff, Expr.fold_eq_self_iff left,
        Expr.fold_eq_self_iff right]
  | .index base position type =>
    simp only [Expr.fold, Expr.index.injEq, and_true, Bool.or_eq_false_iff, Expr.fold_eq_self_iff base,
      Expr.fold_eq_self_iff position]
  | .property base name type => simp only [Expr.fold, Expr.property.injEq, and_true, Expr.fold_eq_self_iff base]
  | .var .. | .string .. | .int .. | .bool .. | .real .. => simp only [Expr.fold]

theorem foldArgs_eq_self_iff (args : List Expr) : (foldArgs args).1 = args ↔ (foldArgs args).2 = false := by
  match args with
  | [] => simp only [foldArgs]
  | arg :: args =>
    simp only [foldArgs, List.cons.injEq, Bool.or_eq_false_iff, Expr.fold_eq_self_iff arg, foldArgs_eq_self_iff args]

end

theorem foldInitializer_eq_self_iff (value : Option Expr) :
    (foldInitializer value).1 = value ↔ (foldInitializer value).2 = false := by
  cases value with
  | none => simp only [foldInitializer]
  | some value => simp only [foldInitializer, Option.some.injEq, Expr.fold_eq_self_iff]

mutual

theorem Stmt.fold_eq_self_iff (stmt : Stmt) : stmt.fold.1 = stmt ↔ stmt.fold.2 = false := by
  match stmt with
  | .declare name type value =>
    simp only [Stmt.fold, Stmt.declare.injEq, true_and, foldInitializer_eq_self_iff]
  | .assign target value =>
    simp only [Stmt.fold, Stmt.assign.injEq, Bool.or_eq_false_iff, Expr.fold_eq_self_iff]
  | .branch condition thenBranch elseBranch =>
    simp only [Stmt.fold, Stmt.branch.injEq, Bool.or_eq_false_iff, and_assoc, Expr.fold_eq_self_iff,
      Stmt.fold_eq_self_iff thenBranch, foldElse_eq_self_iff elseBranch]
  | .call callee args type =>
    simp only [Stmt.fold, Stmt.call.injEq, and_true, Bool.or_eq_false_iff, Expr.fold_eq_self_iff,
      foldArgs_eq_self_iff]
  | .block lines => simp only [Stmt.fold, Stmt.block.injEq, foldLines_eq_self_iff lines]

theorem foldElse_eq_self_iff (branch : Option Stmt) :
    (foldElse branch).1 = branch ↔ (foldElse branch).2 = false := by
  match branch with
  | none => simp only [foldElse]
  | some branch => simp only [foldElse, Option.some.injEq, Stmt.fold_eq_self_iff branch]

theorem foldLines_eq_self_iff (lines : List Stmt) :
    (foldLines lines).1 = lines ↔ (foldLines lines).2 = false := by
  match lines with
  | [] => simp only [foldLines]
  | line :: lines =>
    simp only [foldLines, List.cons.injEq, Bool.or_eq_false_iff, Stmt.fold_eq_self_iff line,
      foldLines_eq_self_iff lines]

end

theorem Decl.fold_eq_self_iff (decl : Decl) : decl.fold.1 = decl ↔ decl.fold.2 = false := by
  cases decl with
  | object declaration => simp only [Decl.fold]
  | function declaration =>
    obtain ⟨exported, name, returns, params, body⟩ := declaration
    simp only [Decl.fold, Decl.function.injEq, FunctionDecl.mk.injEq, true_and, foldLines_eq_self_iff]

theorem foldDecls_eq_self_iff (decls : List Decl) :
    (foldDecls decls).1 = decls ↔ (foldDecls decls).2 = false := by
  induction decls with
  | nil => simp only [foldDecls]
  | cons decl decls ih =>
    simp only [foldDecls, List.cons.injEq, Bool.or_eq_false_iff, Decl.fold_eq_self_iff, ih]

theorem Program.fold_eq_self_iff (program : Program) : program.fold.1 = program ↔ program.fold.2 = false := by
  obtain ⟨imports, decls⟩ := program
  simp only [Program.fold, Program.mk.injEq, true_and, foldDecls_eq_self_iff]

end Flags

/-- Folding says exactly when it has changed something, and it is done after one round. Of the rounds that an
optimizer may take, however many, at most one changes something; it is none exactly if the program stays as it
is. -/
theorem Pass.optimize_settles :
    (∀ expr : Expr, (expr.fold.2 = true ↔ expr.fold.1 ≠ expr) ∧ expr.fold.1.fold = (expr.fold.1, false)) ∧
      ∀ program : Program,
        let settled := optimize defaults program
        (settled.2 = 0 ∨ settled.2 = 1) ∧ (settled.2 = 0 ↔ settled.1 = program) ∧
          settled.1 = (runOnce defaults program).1 ∧ settled.2 < maxRounds ∧
          ∀ limit, 2 ≤ limit → runRounds defaults limit program = settled := by
  refine ⟨fun expr => ⟨?_, expr.fold_fold⟩, fun program => ?_⟩
  · rw [ne_eq, expr.fold_eq_self_iff, Bool.not_eq_false]
  · have settled : optimize defaults program = (program.fold.1, if program.fold.2 then 1 else 0) :=
      runRounds_defaults 8 program
    simp only [settled, runOnce_defaults, program.fold_eq_self_iff]
    refine ⟨?_, ?_, trivial, ?_, fun limit room => ?_⟩
    · cases program.fold.2 <;> simp
    · cases program.fold.2 <;> simp
    · cases program.fold.2 <;> decide
    · obtain ⟨more, rfl⟩ := Nat.exists_eq_add_of_le' room
      exact runRounds_defaults more program

end TypedTree
