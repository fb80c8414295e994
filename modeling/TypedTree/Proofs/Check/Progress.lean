import TypedTree.Proofs.Check.Verdict
/-! How far a check gets. A check completes the expressions of a function one after another, parts before the
whole, and writes a type on each as soon as it has inferred it. Where it ends, because of a problem or because
nothing is left, the expressions completed so far carry their inferred types, and the others what they carried
before. -/

namespace TypedTree

/-- An expression where it stands, with what its names refer to there. -/
structure Occurrence where
  context : Context
  expr : Expr

namespace Occurrence

/-- The type a check infers for the expression where it stands, if there is one. -/
def inferred (occurrence : Occurrence) : Option Ty := (occurrence.expr.infer occurrence.context).toOption

def written (occurrence : Occurrence) : Option Ty := occurrence.expr.type?

end Occurrence

/-- An expression with all its parts, in the order of completion. -/
def Expr.occurrences (context : Context) (expr : Expr) : List Occurrence :=
  expr.parts.map (Occurrence.mk context)

mutual

def Stmt.occurrences (environment : Environment) (scopes : Scopes) : Stmt → List Occurrence
  | .declare _ _ value => value.elim [] (Expr.occurrences ⟨environment, scopes⟩)
  | .assign target value =>
    value.occurrences ⟨environment, scopes⟩ ++ target.occurrences ⟨environment, scopes⟩
  | .branch condition thenBranch elseBranch =>
    condition.occurrences ⟨environment, scopes⟩ ++ thenBranch.occurrences environment scopes.enter ++
      elseOccurrences environment scopes elseBranch
  | .call callee args type => (Expr.call callee args type).occurrences ⟨environment, scopes⟩
  | .block lines => linesOccurrences environment scopes.enter lines

def elseOccurrences (environment : Environment) (scopes : Scopes) : Option Stmt → List Occurrence
  | none => []
  | some branch => branch.occurrences environment scopes.enter

def linesOccurrences (environment : Environment) (scopes : Scopes) : List Stmt → List Occurrence
  | [] => []
  | line :: lines =>
    line.occurrences environment scopes ++ linesOccurrences environment (line.scopesAfter scopes) lines

end

/-- The types written on expressions when their check has ended: on the ones it has completed those that it
inferred, and behind them those from before. A check that succeeds has completed all. -/
def WrittenUpTo {α : Type} (occurrences : List Occurrence) (types : List (Option Ty))
    (outcome : Except Problem α) : Prop :=
  ∃ done left, occurrences = done ++ left ∧ (∀ occurrence ∈ done, occurrence.inferred.isSome = true) ∧
    types = done.map Occurrence.inferred ++ left.map Occurrence.written ∧
    ∀ value, outcome = .ok value → left = []

def WrittenBehind {α : Type} (ahead : List (Option Ty)) (occurrences : List Occurrence)
    (types : List (Option Ty)) (outcome : Except Problem α) : Prop :=
  ∃ rest, types = ahead ++ rest ∧ WrittenUpTo occurrences rest outcome

namespace WrittenUpTo

variable {α β : Type}

theorem behind_nil {occurrences : List Occurrence} {types : List (Option Ty)} {outcome : Except Problem α}
    (ran : WrittenBehind [] occurrences types outcome) : WrittenUpTo occurrences types outcome := by
  obtain ⟨rest, rfl, ran⟩ := ran
  exact ran

theorem nothing (outcome : Except Problem α) : WrittenUpTo [] [] outcome :=
  ⟨[], [], rfl, nofun, rfl, fun _ _ => rfl⟩

theorem untouched (occurrences : List Occurrence) (problem : Problem) :
    WrittenUpTo occurrences (occurrences.map Occurrence.written) (.error problem : Except Problem α) :=
  ⟨[], occurrences, rfl, nofun, rfl, nofun⟩

theorem stop {first : List Occurrence} {types : List (Option Ty)} {problem : Problem}
    (ran : WrittenUpTo first types (.error problem : Except Problem α)) (later : List Occurrence)
    (other : Problem) :
    WrittenUpTo (first ++ later) (types ++ later.map Occurrence.written) (.error other : Except Problem β) := by
  obtain ⟨done, left, rfl, inferred, rfl, -⟩ := ran
  exact ⟨done, left ++ later, by rw [List.append_assoc], inferred, by simp, nofun⟩

theorem judged {occurrences : List Occurrence} {types : List (Option Ty)} {outcome : Except Problem α}
    (ran : WrittenUpTo occurrences types outcome) {verdict : Except Problem β}
    (needed : ∀ value, verdict = .ok value → ∃ found, outcome = .ok found) :
    WrittenUpTo occurrences types verdict := by
  obtain ⟨done, left, split, inferred, same, complete⟩ := ran
  refine ⟨done, left, split, inferred, same, fun value accepted => ?_⟩
  obtain ⟨found, succeeded⟩ := needed value accepted
  exact complete found succeeded

theorem append {first later : List Occurrence} {types rest : List (Option Ty)} {value : α}
    {outcome : Except Problem β} (ran : WrittenUpTo first types (.ok value : Except Problem α))
    (next : WrittenUpTo later rest outcome) : WrittenUpTo (first ++ later) (types ++ rest) outcome := by
  obtain ⟨done, left, rfl, inferred, rfl, complete⟩ := ran
  obtain rfl := complete value rfl
  obtain ⟨others, left, rfl, othersInferred, rfl, complete⟩ := next
  refine ⟨done ++ others, left, by simp, ?_, by simp, complete⟩
  exact List.forall_mem_append.mpr ⟨inferred, othersInferred⟩

theorem exists_count {occurrences : List Occurrence} {types : List (Option Ty)} {outcome : Except Problem α}
    (ran : WrittenUpTo occurrences types outcome) :
    ∃ count ≤ occurrences.length,
      (∀ occurrence ∈ occurrences.take count, ∃ type, occurrence.expr.infer occurrence.context = .ok type) ∧
      types = (occurrences.take count).map Occurrence.inferred ++
        (occurrences.drop count).map Occurrence.written ∧
      ∀ value, outcome = .ok value → count = occurrences.length := by
  obtain ⟨done, left, rfl, inferred, types, complete⟩ := ran
  refine ⟨done.length, by simp, ?_, ?_, fun value succeeded => ?_⟩
  · intro occurrence listed
    rw [List.take_left] at listed
    have found := inferred occurrence listed
    rw [Occurrence.inferred] at found
    cases result : occurrence.expr.infer occurrence.context with
    | error problem => rw [result] at found; cases found
    | ok type => exact ⟨type, rfl⟩
  · rw [List.take_left, List.drop_left]
    exact types
  · rw [complete value succeeded, List.append_nil]

end WrittenUpTo

theorem Checked.view_andThen {α β γ δ ε : Type} {part : Checked α β} {rebuild : α → γ}
    {next : α → β → Checked γ δ} (view : γ → ε) {same : ε} (stops : view (rebuild part.tree) = same)
    (goes : ∀ value, view (next part.tree value).tree = same) : view (part.andThen rebuild next).tree = same := by
  cases ended : part.outcome with
  | error problem => simpa only [Checked.andThen, ended] using stops
  | ok value => simpa only [Checked.andThen, ended] using goes value

/-- One step of a check behind another. Where the first one fails, the tree is put together with what the
first one left; where it succeeds, the second one goes on behind it. -/
theorem WrittenBehind.andThen {α β γ δ : Type} {part : Checked α β} {rebuild : α → γ} {next : α → β → Checked γ δ}
    {first later : List Occurrence} {own : α → List (Option Ty)} (whole : γ → List (Option Ty))
    (ahead : List (Option Ty)) (ran : WrittenUpTo first (own part.tree) part.outcome)
    (stops : whole (rebuild part.tree) = ahead ++ (own part.tree ++ later.map Occurrence.written))
    (goes : ∀ value, part.outcome = .ok value →
      WrittenBehind (ahead ++ own part.tree) later (whole (next part.tree value).tree)
        (next part.tree value).outcome) :
    WrittenBehind ahead (first ++ later) (whole (part.andThen rebuild next).tree)
      (part.andThen rebuild next).outcome := by
  cases ended : part.outcome with
  | error problem =>
    rw [ended] at ran
    simp only [Checked.andThen, ended]
    exact ⟨_, stops, ran.stop later problem⟩
  | ok value =>
    obtain ⟨rest, same, further⟩ := goes value ended
    rw [ended] at ran
    simp only [Checked.andThen, ended]
    exact ⟨_, by rw [same, List.append_assoc], ran.append further⟩

def Expr.types (expr : Expr) : List (Option Ty) := expr.parts.map Expr.type?

def Stmt.types (stmt : Stmt) : List (Option Ty) := stmt.exprs.map Expr.type?

def elseTypes (branch : Option Stmt) : List (Option Ty) := (elseExprs branch).map Expr.type?

def linesTypes (lines : List Stmt) : List (Option Ty) := (linesExprs lines).map Expr.type?

def argsTypes (args : List Expr) : List (Option Ty) := (argsParts args).map Expr.type?

def argsOccurrences (context : Context) (args : List Expr) : List Occurrence :=
  (argsParts args).map (Occurrence.mk context)

section Order

variable (context : Context)

@[simp] theorem Expr.expr_occurrences (expr : Expr) :
    (expr.occurrences context).map Occurrence.expr = expr.parts := by
  rw [occurrences, List.map_map]
  exact List.map_id expr.parts

@[simp] theorem Expr.written_occurrences (expr : Expr) :
    (expr.occurrences context).map Occurrence.written = expr.types := by
  rw [occurrences, List.map_map]
  rfl

@[simp] theorem written_argsOccurrences (args : List Expr) :
    (argsOccurrences context args).map Occurrence.written = argsTypes args := by
  rw [argsOccurrences, List.map_map]
  rfl

theorem Expr.types_call (callee : Expr) (args : List Expr) (type : Option Ty) :
    (call callee args type).types = callee.types ++ (argsTypes args ++ [type]) := by
  simp [types, argsTypes, parts, type?]

theorem Expr.types_arithmetic (operator : Operator) (left right : Expr) (type : Option Ty) :
    (arithmetic operator left right type).types = left.types ++ (right.types ++ [type]) := by
  simp [types, parts, type?]

theorem Expr.types_index (base position : Expr) (type : Option Ty) :
    (index base position type).types = base.types ++ (position.types ++ [type]) := by
  simp [types, parts, type?]

theorem Expr.types_property (base : Expr) (name : String) (type : Option Ty) :
    (property base name type).types = base.types ++ [type] := by
  simp [types, parts, type?]

theorem argsTypes_cons (arg : Expr) (args : List Expr) :
    argsTypes (arg :: args) = arg.types ++ argsTypes args := by
  simp [Expr.types, argsTypes, argsParts]

theorem Expr.occurrences_call (callee : Expr) (args : List Expr) (type : Option Ty) :
    (call callee args type).occurrences context =
      callee.occurrences context ++ (argsOccurrences context args ++ [⟨context, call callee args type⟩]) := by
  simp [occurrences, argsOccurrences, parts]

theorem Expr.occurrences_arithmetic (operator : Operator) (left right : Expr) (type : Option Ty) :
    (arithmetic operator left right type).occurrences context =
      left.occurrences context ++
        (right.occurrences context ++ [⟨context, arithmetic operator left right type⟩]) := by
  simp [occurrences, parts]

theorem Expr.occurrences_index (base position : Expr) (type : Option Ty) :
    (index base position type).occurrences context =
      base.occurrences context ++ (position.occurrences context ++ [⟨context, index base position type⟩]) := by
  simp [occurrences, parts]

theorem Expr.occurrences_property (base : Expr) (name : String) (type : Option Ty) :
    (property base name type).occurrences context =
      base.occurrences context ++ [⟨context, property base name type⟩] := by
  simp [occurrences, parts]

theorem argsOccurrences_cons (arg : Expr) (args : List Expr) :
    argsOccurrences context (arg :: args) = arg.occurrences context ++ argsOccurrences context args := by
  simp [Expr.occurrences, argsOccurrences, argsParts]

end Order

section Expressions

variable (context : Context)

/-- Behind its parts, an expression is completed itself exactly if it has a type. -/
theorem WrittenBehind.finish {ahead : List (Option Ty)} {whole tree : Expr} {result : Except Problem Ty}
    (kept : tree.types = ahead ++ [whole.type?])
    (decorated : ∀ type, (tree.decorate type).types = ahead ++ [some type])
    (inferred : ∀ type, result = .ok type → whole.infer context = .ok type) :
    WrittenBehind ahead [⟨context, whole⟩] (Checked.finish tree result).tree.types
      (Checked.finish tree result).outcome := by
  cases result with
  | error problem => exact ⟨[whole.type?], kept, .untouched [⟨context, whole⟩] problem⟩
  | ok type =>
    have found := inferred type rfl
    refine ⟨[some type], decorated type, [⟨context, whole⟩], [], rfl, ?_, ?_, fun _ _ => rfl⟩
    · simp [Occurrence.inferred, found, Except.toOption]
    · simp [Occurrence.inferred, found, Except.toOption]

theorem WrittenUpTo.asPlace {expr : Expr}
    (ran : WrittenUpTo (expr.occurrences context) (expr.check context).tree.types (expr.check context).outcome) :
    WrittenUpTo (expr.occurrences context) (Checked.asPlace expr (expr.check context)).tree.types
      (Checked.asPlace expr (expr.check context)).outcome := by
  unfold Checked.asPlace
  split
  · exact ran
  · rw [← expr.written_occurrences context]
    exact .untouched _ _

theorem WrittenUpTo.asPropertyBase {expr : Expr}
    (ran : WrittenUpTo (expr.occurrences context) (expr.check context).tree.types (expr.check context).outcome) :
    WrittenUpTo (expr.occurrences context) (Checked.asPropertyBase expr (expr.check context)).tree.types
      (Checked.asPropertyBase expr (expr.check context)).outcome := by
  cases expr with
  | call callee args type => exact ran
  | _ => exact asPlace context ran

mutual

theorem Expr.writtenUpTo_check (expr : Expr) :
    WrittenUpTo (expr.occurrences context) (expr.check context).tree.types (expr.check context).outcome := by
  match expr with
  | .call callee args type =>
    rw [Expr.occurrences_call, Expr.check]
    apply WrittenUpTo.behind_nil
    refine .andThen Expr.types [] (.asPlace context (Expr.writtenUpTo_check callee)) ?_
      fun calleeType calleeFound => ?_
    · simp [Expr.types_call, Occurrence.written, Expr.type?]
    rw [outcome_asPlace] at calleeFound
    cases signature : calleeType.params with
    | none =>
      refine ⟨_, ?_, .untouched _ _⟩
      simp [Expr.types_call, Occurrence.written, Expr.type?]
    | some params =>
      refine .andThen Expr.types _ (writtenUpTo_checkArgs (.call callee args type) params args) ?_
        fun _ argsFound => ?_
      · simp [Expr.types_call, Occurrence.written, Expr.type?]
      refine .finish context ?_ (fun type => ?_) fun inferred same => ?_
      · simp [Expr.types_call, Expr.type?]
      · simp [Expr.decorate, Expr.types_call]
      · obtain ⟨place, calleeInferred⟩ := (Expr.inferPlace_eq_ok_iff context callee calleeType).mp calleeFound
        cases same
        exact (Expr.infer_call_eq_ok_iff context callee args type calleeType).mpr
          ⟨place, calleeInferred, params, signature, argsFound⟩
  | .arithmetic operator left right type =>
    rw [Expr.occurrences_arithmetic, Expr.check]
    apply WrittenUpTo.behind_nil
    refine .andThen Expr.types [] (Expr.writtenUpTo_check left) ?_ fun leftType leftFound => ?_
    · simp [Expr.types_arithmetic, Occurrence.written, Expr.type?]
    refine .andThen Expr.types _ (Expr.writtenUpTo_check right) ?_ fun rightType rightFound => ?_
    · simp [Expr.types_arithmetic, Occurrence.written, Expr.type?]
    refine .finish context ?_ (fun type => ?_) fun inferred same => ?_
    · simp [Expr.types_arithmetic, Expr.type?]
    · simp [Expr.decorate, Expr.types_arithmetic]
    · have leftInferred : left.infer context = .ok leftType := leftFound
      have rightInferred : right.infer context = .ok rightType := rightFound
      rw [Expr.infer_arithmetic, leftInferred, rightInferred]
      exact same
  | .index base position type =>
    rw [Expr.occurrences_index, Expr.check]
    apply WrittenUpTo.behind_nil
    refine .andThen Expr.types [] (.asPlace context (Expr.writtenUpTo_check base)) ?_ fun baseType baseFound => ?_
    · simp [Expr.types_index, Occurrence.written, Expr.type?]
    refine .andThen Expr.types _ (Expr.writtenUpTo_check position) ?_ fun positionType positionFound => ?_
    · simp [Expr.types_index, Occurrence.written, Expr.type?]
    refine .finish context ?_ (fun type => ?_) fun inferred same => ?_
    · simp [Expr.types_index, Expr.type?]
    · simp [Expr.decorate, Expr.types_index]
    · have positionInferred : position.infer context = .ok positionType := positionFound
      rw [outcome_asPlace] at baseFound
      rw [Expr.infer_index, baseFound, positionInferred]
      exact same
  | .property base name type =>
    rw [Expr.occurrences_property, Expr.check]
    apply WrittenUpTo.behind_nil
    refine .andThen Expr.types [] (.asPropertyBase context (Expr.writtenUpTo_check base)) ?_
      fun baseType baseFound => ?_
    · simp [Expr.types_property, Occurrence.written, Expr.type?]
    refine .finish context ?_ (fun type => ?_) fun inferred same => ?_
    · simp [Expr.types_property, Expr.type?]
    · simp [Expr.decorate, Expr.types_property]
    · rw [outcome_asPropertyBase] at baseFound
      rw [Expr.infer_property, baseFound]
      exact same
  | .var name type =>
    rw [Expr.check]
    refine WrittenUpTo.behind_nil (.finish context rfl (fun _ => rfl) fun inferred same => ?_)
    rw [Expr.infer_var]
    exact same
  | .string .. | .int .. | .bool .. | .real .. =>
    rw [Expr.check]
    exact WrittenUpTo.behind_nil (.finish context rfl (fun _ => rfl) fun inferred same => same)

theorem writtenUpTo_checkArgs (whole : Expr) (params : List Ty) (args : List Expr) :
    WrittenUpTo (argsOccurrences context args) (argsTypes (checkArgs context whole params args).tree)
      (checkArgs context whole params args).outcome := by
  match params, args with
  | _, [] =>
    rw [checkArgs]
    exact .nothing _
  | [], arg :: args =>
    rw [argsOccurrences_cons, checkArgs]
    apply WrittenUpTo.behind_nil
    refine .andThen argsTypes [] (Expr.writtenUpTo_check arg) ?_ fun found argFound => ⟨_, ?_, .untouched _ _⟩
    · simp [argsTypes_cons]
    · simp [argsTypes_cons]
  | param :: params, arg :: args =>
    rw [argsOccurrences_cons, checkArgs]
    apply WrittenUpTo.behind_nil
    refine .andThen argsTypes [] (Expr.writtenUpTo_check arg) ?_ fun found argFound => ?_
    · simp [argsTypes_cons]
    cases expectType whole.render param found with
    | error problem =>
      refine ⟨_, ?_, .untouched _ problem⟩
      simp [argsTypes_cons]
    | ok fits =>
      refine ⟨_, ?_, writtenUpTo_checkArgs whole params args⟩
      simp [argsTypes_cons]

end

end Expressions

section Erased

@[simp] theorem Expr.erase_decorate (type : Ty) (expr : Expr) : (expr.decorate type).erase = expr.erase := by
  cases expr <;> rfl

theorem Expr.erase_finish (expr : Expr) (result : Except Problem Ty) :
    (Checked.finish expr result).tree.erase = expr.erase := by
  cases result with
  | error problem => rfl
  | ok type => exact expr.erase_decorate type

theorem Expr.erase_asPlace {expr : Expr} {check : Checked Expr Ty} (same : check.tree.erase = expr.erase) :
    (Checked.asPlace expr check).tree.erase = expr.erase := by
  unfold Checked.asPlace
  split
  · exact same
  · rfl

theorem Expr.erase_asPropertyBase {expr : Expr} {check : Checked Expr Ty} (same : check.tree.erase = expr.erase) :
    (Checked.asPropertyBase expr check).tree.erase = expr.erase := by
  cases expr with
  | call callee args type => exact same
  | _ => exact erase_asPlace same

variable (context : Context)

mutual

theorem Expr.erase_check (expr : Expr) : (expr.check context).tree.erase = expr.erase := by
  match expr with
  | .call callee args type =>
    have calleeSame := Expr.erase_asPlace (Expr.erase_check callee)
    rw [Expr.check]
    refine Checked.view_andThen Expr.erase ?_ fun calleeType => ?_
    · simp only [Expr.erase, calleeSame]
    cases calleeType.params with
    | none => simp only [Expr.erase, calleeSame]
    | some params =>
      have argsSame := erase_checkArgs (.call callee args type) params args
      refine Checked.view_andThen Expr.erase ?_ fun _ => ?_
      · simp only [Expr.erase, calleeSame, argsSame]
      · simp only [Expr.erase_finish, Expr.erase, calleeSame, argsSame]
  | .arithmetic operator left right type =>
    rw [Expr.check]
    refine Checked.view_andThen Expr.erase ?_ fun leftType => ?_
    · simp only [Expr.erase, Expr.erase_check left]
    refine Checked.view_andThen Expr.erase ?_ fun rightType => ?_
    · simp only [Expr.erase, Expr.erase_check left, Expr.erase_check right]
    · simp only [Expr.erase_finish, Expr.erase, Expr.erase_check left, Expr.erase_check right]
  | .index base position type =>
    have baseSame := Expr.erase_asPlace (Expr.erase_check base)
    rw [Expr.check]
    refine Checked.view_andThen Expr.erase ?_ fun baseType => ?_
    · simp only [Expr.erase, baseSame]
    refine Checked.view_andThen Expr.erase ?_ fun positionType => ?_
    · simp only [Expr.erase, baseSame, Expr.erase_check position]
    · simp only [Expr.erase_finish, Expr.erase, baseSame, Expr.erase_check position]
  | .property base name type =>
    have baseSame := Expr.erase_asPropertyBase (Expr.erase_check base)
    rw [Expr.check]
    refine Checked.view_andThen Expr.erase ?_ fun baseType => ?_
    · simp only [Expr.erase, baseSame]
    · simp only [Expr.erase_finish, Expr.erase, baseSame]
  | .var .. | .string .. | .int .. | .bool .. | .real .. => rw [Expr.check, Expr.erase_finish]

theorem erase_checkArgs (whole : Expr) (params : List Ty) (args : List Expr) :
    eraseArgs (checkArgs context whole params args).tree = eraseArgs args := by
  match params, args with
  | _, [] => rw [checkArgs]
  | [], arg :: args =>
    rw [checkArgs]
    refine Checked.view_andThen eraseArgs ?_ fun found => ?_ <;>
    · simp only [eraseArgs, Expr.erase_check arg]
  | param :: params, arg :: args =>
    rw [checkArgs]
    refine Checked.view_andThen eraseArgs ?_ fun found => ?_
    · simp only [eraseArgs, Expr.erase_check arg]
    · cases expectType whole.render param found <;>
      · simp only [eraseArgs, Expr.erase_check arg, erase_checkArgs whole params args]

end

theorem erase_checkInitializer (whole : Stmt) (type : Ty) (value : Option Expr) :
    (checkInitializer context whole type value).tree.map Expr.erase = value.map Expr.erase := by
  cases value with
  | none => rfl
  | some value =>
    have same := Expr.erase_check context value
    refine Checked.view_andThen (Option.map Expr.erase) ?_ fun found => ?_ <;>
    · simp only [Option.map, same]

theorem erase_checkDeclare (name : String) (type : Ty) (value : Option Expr) :
    (checkDeclare context name type value).tree.erase = (Stmt.declare name type value).erase := by
  have same := erase_checkInitializer context (.declare name type value) type value
  unfold checkDeclare
  split
  · rfl
  · dsimp only
    split
    · simp only [Stmt.erase, same]
    · split <;> simp only [Stmt.erase, same]

theorem erase_checkAssign (target value : Expr) :
    (checkAssign context target value).tree.erase = (Stmt.assign target value).erase := by
  have valueSame := Expr.erase_check context value
  have targetSame := Expr.erase_asPlace (Expr.erase_check context target)
  refine Checked.view_andThen Stmt.erase ?_ fun found => ?_
  · simp only [Stmt.erase, valueSame]
  refine Checked.view_andThen Stmt.erase ?_ fun expected => ?_ <;>
  · simp only [Stmt.erase, valueSame, targetSame]

theorem Expr.tree_check_call (callee : Expr) (args : List Expr) (type : Option Ty) :
    ∃ checkedCallee checkedArgs checkedType,
      ((call callee args type).check context).tree = call checkedCallee checkedArgs checkedType := by
  have same := erase_check context (call callee args type)
  cases left : ((call callee args type).check context).tree with
  | call checkedCallee checkedArgs checkedType => exact ⟨_, _, _, rfl⟩
  | _ => rw [left] at same; simp only [erase, reduceCtorEq] at same

end Erased

section Statements

variable (environment : Environment)

mutual

theorem Stmt.erase_check (scopes : Scopes) (stmt : Stmt) :
    (stmt.check environment scopes).tree.erase = stmt.erase := by
  match stmt with
  | .declare name type value => exact erase_checkDeclare ⟨environment, scopes⟩ name type value
  | .assign target value => exact erase_checkAssign ⟨environment, scopes⟩ target value
  | .branch condition thenBranch elseBranch =>
    simp only [Stmt.check]
    split
    · simp only [Stmt.erase, Expr.erase_check]
    · split
      · simp only [Stmt.erase, Expr.erase_check, CheckedBody.exitScope, Stmt.erase_check _ thenBranch]
      · simp only [Stmt.erase, Expr.erase_check, CheckedBody.exitScope, Stmt.erase_check _ thenBranch,
          erase_checkElse _ elseBranch]
  | .call callee args type =>
    obtain ⟨checkedCallee, checkedArgs, checkedType, left⟩ :=
      Expr.tree_check_call ⟨environment, scopes⟩ callee args type
    have same := Expr.erase_check ⟨environment, scopes⟩ (.call callee args type)
    rw [left, Expr.erase, Expr.erase, Expr.call.injEq] at same
    simp only [Stmt.check, left, Expr.toStmt?, Option.getD, Stmt.erase, same]
  | .block lines => simp only [Stmt.check, CheckedBody.exitScope, Stmt.erase, erase_checkLines _ lines]

theorem erase_checkElse (scopes : Scopes) (branch : Option Stmt) :
    eraseElse (checkElse environment scopes branch).tree = eraseElse branch := by
  match branch with
  | none => rfl
  | some branch => simp only [checkElse, CheckedBody.exitScope, eraseElse, Stmt.erase_check _ branch]

theorem erase_checkLines (scopes : Scopes) (lines : List Stmt) :
    eraseLines (checkLines environment scopes lines).tree = eraseLines lines := by
  match lines with
  | [] => rfl
  | line :: lines =>
    simp only [checkLines]
    split
    · simp only [eraseLines, Stmt.erase_check _ line]
    · simp only [eraseLines, Stmt.erase_check _ line, erase_checkLines _ lines]

end

mutual

@[simp] theorem Stmt.expr_occurrences (scopes : Scopes) (stmt : Stmt) :
    (stmt.occurrences environment scopes).map Occurrence.expr = stmt.exprs := by
  match stmt with
  | .declare name type none => rfl
  | .declare name type (some value) => exact value.expr_occurrences _
  | .assign target value => simp [Stmt.occurrences, Stmt.exprs]
  | .branch condition thenBranch elseBranch =>
    simp [Stmt.occurrences, Stmt.exprs, Stmt.expr_occurrences _ thenBranch, expr_elseOccurrences _ elseBranch]
  | .call callee args type => exact Expr.expr_occurrences _ _
  | .block lines => exact expr_linesOccurrences _ lines

@[simp] theorem expr_elseOccurrences (scopes : Scopes) (branch : Option Stmt) :
    (elseOccurrences environment scopes branch).map Occurrence.expr = elseExprs branch := by
  match branch with
  | none => rfl
  | some branch => exact Stmt.expr_occurrences _ branch

@[simp] theorem expr_linesOccurrences (scopes : Scopes) (lines : List Stmt) :
    (linesOccurrences environment scopes lines).map Occurrence.expr = linesExprs lines := by
  match lines with
  | [] => rfl
  | line :: lines =>
    simp [linesOccurrences, linesExprs, Stmt.expr_occurrences _ line, expr_linesOccurrences _ lines]

end

@[simp] theorem Stmt.written_occurrences (scopes : Scopes) (stmt : Stmt) :
    (stmt.occurrences environment scopes).map Occurrence.written = stmt.types := by
  rw [types, ← stmt.expr_occurrences environment scopes, List.map_map]
  rfl

@[simp] theorem written_elseOccurrences (scopes : Scopes) (branch : Option Stmt) :
    (elseOccurrences environment scopes branch).map Occurrence.written = elseTypes branch := by
  rw [elseTypes, ← expr_elseOccurrences environment scopes branch, List.map_map]
  rfl

@[simp] theorem written_linesOccurrences (scopes : Scopes) (lines : List Stmt) :
    (linesOccurrences environment scopes lines).map Occurrence.written = linesTypes lines := by
  rw [linesTypes, ← expr_linesOccurrences environment scopes lines, List.map_map]
  rfl

theorem Stmt.types_declare (name : String) (type : Ty) (value : Option Expr) :
    (declare name type value).types = value.elim [] Expr.types := by
  cases value <;> rfl

theorem Stmt.types_assign (target value : Expr) : (assign target value).types = value.types ++ target.types := by
  simp [types, exprs, Expr.types]

theorem Stmt.types_branch (condition : Expr) (thenBranch : Stmt) (elseBranch : Option Stmt) :
    (branch condition thenBranch elseBranch).types =
      condition.types ++ thenBranch.types ++ elseTypes elseBranch := by
  simp [types, exprs, Expr.types, elseTypes]

theorem linesTypes_cons (line : Stmt) (lines : List Stmt) :
    linesTypes (line :: lines) = line.types ++ linesTypes lines := by
  simp [linesTypes, linesExprs, Stmt.types]

theorem writtenUpTo_checkInitializer (context : Context) (whole : Stmt) (type : Ty) (value : Option Expr) :
    WrittenUpTo (value.elim [] (Expr.occurrences context))
      ((checkInitializer context whole type value).tree.elim [] Expr.types)
      (checkInitializer context whole type value).outcome := by
  cases value with
  | none => exact .nothing _
  | some value =>
    have ran := value.writtenUpTo_check context
    simp only [checkInitializer, Checked.andThen]
    cases ended : (value.check context).outcome with
    | error problem => exact ran.judged fun _ accepted => by cases accepted
    | ok found => exact ran.judged fun _ _ => ⟨found, ended⟩

theorem writtenUpTo_checkDeclare (context : Context) (name : String) (type : Ty) (value : Option Expr) :
    WrittenUpTo ((Stmt.declare name type value).occurrences context.environment context.scopes)
      (checkDeclare context name type value).tree.types (checkDeclare context name type value).outcome := by
  have ran := writtenUpTo_checkInitializer context (.declare name type value) type value
  unfold checkDeclare
  split
  · rw [← Stmt.written_occurrences context.environment context.scopes]
    exact .untouched _ _
  dsimp only
  split
  · rw [Stmt.types_declare]
    exact ran.judged nofun
  next initialized =>
    split <;> rw [Stmt.types_declare]
    · exact ran.judged nofun
    · exact ran.judged fun _ _ => ⟨(), initialized⟩

theorem writtenUpTo_checkAssign (context : Context) (target value : Expr) :
    WrittenUpTo (value.occurrences context ++ target.occurrences context)
      (checkAssign context target value).tree.types (checkAssign context target value).outcome := by
  apply WrittenUpTo.behind_nil
  refine .andThen Stmt.types [] (value.writtenUpTo_check context) ?_ fun found valueFound => ?_
  · simp [Stmt.types_assign]
  have placed := WrittenUpTo.asPlace context (target.writtenUpTo_check context)
  rw [← List.append_nil (target.occurrences context)]
  refine .andThen Stmt.types _ placed ?_ fun expected targetFound => ⟨[], ?_, .nothing _⟩
  · simp [Stmt.types_assign]
  · simp [Stmt.types_assign]

mutual

theorem Stmt.writtenUpTo_check (scopes : Scopes) (stmt : Stmt) :
    WrittenUpTo (stmt.occurrences environment scopes) (stmt.check environment scopes).tree.types
      (stmt.check environment scopes).outcome := by
  match stmt with
  | .declare name type value => exact writtenUpTo_checkDeclare ⟨environment, scopes⟩ name type value
  | .assign target value => exact writtenUpTo_checkAssign ⟨environment, scopes⟩ target value
  | .branch condition thenBranch elseBranch =>
    have conditionRan := condition.writtenUpTo_check ⟨environment, scopes⟩
    have thenRan := Stmt.writtenUpTo_check scopes.enter thenBranch
    have elseRan := writtenUpTo_checkElse scopes elseBranch
    have restored := Stmt.exit_of_scopes_check (thenBranch.scopes_check environment scopes.enter)
    simp only [Stmt.occurrences, Stmt.check, CheckedBody.exitScope, restored, List.append_assoc]
    split
    next problem refused =>
      rw [refused] at conditionRan
      simpa [Stmt.types_branch] using conditionRan.stop
        (thenBranch.occurrences environment scopes.enter ++ elseOccurrences environment scopes elseBranch) problem
    next conditionType accepted =>
      rw [accepted] at conditionRan
      split
      next problem refused =>
        rw [refused] at thenRan
        simpa [Stmt.types_branch] using
          conditionRan.append (thenRan.stop (elseOccurrences environment scopes elseBranch) problem)
      next thenAccepted =>
        rw [thenAccepted] at thenRan
        simp only [Stmt.types_branch, List.append_assoc]
        -- That the condition is no truth value is found when everything is complete.
        refine conditionRan.append (thenRan.append (elseRan.judged fun _ judged => ⟨(), ?_⟩))
        obtain ⟨_, succeeded, _⟩ := bind_eq_ok_iff.mp judged
        exact succeeded
  | .call callee args type =>
    obtain ⟨checkedCallee, checkedArgs, checkedType, left⟩ :=
      Expr.tree_check_call ⟨environment, scopes⟩ callee args type
    have ran := (Expr.call callee args type).writtenUpTo_check ⟨environment, scopes⟩
    simp only [Stmt.occurrences, Stmt.check, left, Expr.toStmt?, Option.getD] at ran ⊢
    refine ran.judged fun _ judged => ?_
    cases found : ((Expr.call callee args type).check ⟨environment, scopes⟩).outcome with
    | error problem => rw [found] at judged; nomatch judged
    | ok value => exact ⟨value, rfl⟩
  | .block lines => exact writtenUpTo_checkLines scopes.enter lines

theorem writtenUpTo_checkElse (scopes : Scopes) (branch : Option Stmt) :
    WrittenUpTo (elseOccurrences environment scopes branch)
      (elseTypes (checkElse environment scopes branch).tree) (checkElse environment scopes branch).outcome := by
  match branch with
  | none => exact .nothing _
  | some branch => exact Stmt.writtenUpTo_check scopes.enter branch

theorem writtenUpTo_checkLines (scopes : Scopes) (lines : List Stmt) :
    WrittenUpTo (linesOccurrences environment scopes lines)
      (linesTypes (checkLines environment scopes lines).tree) (checkLines environment scopes lines).outcome := by
  match lines with
  | [] => exact .nothing _
  | line :: lines =>
    have ran := Stmt.writtenUpTo_check scopes line
    have behind := line.scopes_check environment scopes
    simp only [checkLines, linesOccurrences]
    split
    next problem refused =>
      rw [refused] at ran
      simpa [linesTypes_cons] using
        ran.stop (linesOccurrences environment (line.scopesAfter scopes) lines) problem
    next accepted =>
      rw [accepted] at ran behind
      simp only [behind, linesTypes_cons]
      exact ran.append (writtenUpTo_checkLines (line.scopesAfter scopes) lines)

end

/-- Wherever the check of a function ends, with or without a problem, and whatever was checked before it: it
has completed some number of expressions, in the order of completion, and each of these has an inferred type,
which is now written on it. The expressions behind them carry what they carried before, and but for types
nothing has changed. If the check succeeds, no expression is left. -/
theorem Context.checkFunction_progress (context : Context) (declaration : FunctionDecl) :
    let named := context.scopes.insertAll
      (declaration.params.map fun parameter => (parameter.name, parameter.type))
    let before := linesOccurrences context.environment named declaration.body
    let checked := (context.checkFunction declaration).1
    before.map Occurrence.expr = linesExprs declaration.body ∧
      checked.tree.erase = declaration.erase ∧
      ∃ count ≤ before.length,
        (∀ occurrence ∈ before.take count,
          ∃ type, occurrence.expr.infer occurrence.context = .ok type) ∧
        (linesExprs checked.tree.body).map Expr.type? =
          (before.take count).map Occurrence.inferred ++ (before.drop count).map Occurrence.written ∧
        (checked.outcome = .ok () → count = before.length) := by
  intro named before checked
  have same : eraseLines checked.tree.body = eraseLines declaration.body :=
    erase_checkLines context.environment named declaration.body
  obtain ⟨count, within, inferred, types, complete⟩ :=
    (writtenUpTo_checkLines context.environment named declaration.body).exists_count
  refine ⟨expr_linesOccurrences _ _ _, ?_, count, within, inferred, types, complete ()⟩
  exact congrArg (fun body => { declaration with body }) same

end Statements

end TypedTree
