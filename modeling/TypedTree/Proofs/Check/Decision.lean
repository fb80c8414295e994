import TypedTree.Proofs.Check.Typing
import TypedTree.Proofs.Check.Recheck
/-! A check of a function decides the typing rules: it accepts exactly the functions whose body is well
typed, and writes on every expression the type that the rules give it. -/

namespace TypedTree

def Environment.properties (environment : Environment) : Bindings (Bindings Ty) :=
  fun name => (environment.object? name).map ObjectType.property?

section Expressions

variable (context : Context)

mutual

theorem Expr.infer_eq_ok_iff_hasType (expr : Expr) (type : Ty) :
    expr.infer context = .ok type ↔
      HasType context.environment.properties context.scopes.lookup expr type := by
  match expr with
  | .call callee args written =>
    have calleeIff := Expr.infer_eq_ok_iff_hasType callee type
    have argsIff := fun params => inferArgs_eq_ok_iff_argsFit (.call callee args written) params args
    rw [Expr.infer_call_eq_ok_iff]
    constructor
    · intro inferred
      obtain ⟨place, found, params, signature, fits⟩ := inferred
      exact .call place (calleeIff.mp found) signature ((argsIff params).mp fits)
    · intro typed
      cases typed with
      | call place calleeTyped signature fit =>
        exact ⟨place, calleeIff.mpr calleeTyped, _, signature, (argsIff _).mpr fit⟩
  | .arithmetic operator left right written =>
    have leftIff := Expr.infer_eq_ok_iff_hasType left
    have rightIff := Expr.infer_eq_ok_iff_hasType right
    rw [Expr.infer_arithmetic_eq_ok_iff]
    constructor
    · intro inferred
      obtain ⟨leftType, rightType, leftFound, rightFound, agrees, rfl⟩ := inferred
      have leftTyped := (leftIff leftType).mp leftFound
      have rightTyped := (rightIff rightType).mp rightFound
      cases kind : operator.isComparison with
      | true => exact .comparison kind leftTyped rightTyped agrees
      | false => exact .arithmetic kind leftTyped rightTyped agrees
    · intro typed
      cases typed with
      | comparison kind leftTyped rightTyped agrees =>
        exact ⟨_, _, (leftIff _).mpr leftTyped, (rightIff _).mpr rightTyped, agrees, by rw [kind]; rfl⟩
      | arithmetic kind leftTyped rightTyped agrees =>
        exact ⟨_, _, (leftIff _).mpr leftTyped, (rightIff _).mpr rightTyped, agrees, by rw [kind]; rfl⟩
  | .var name written =>
    rw [Expr.infer_var_eq_ok_iff]
    constructor
    · exact .var
    · intro typed
      cases typed with
      | var visible => exact visible
  | .index base position written =>
    have baseIff := Expr.infer_eq_ok_iff_hasType base
    have positionIff := Expr.infer_eq_ok_iff_hasType position
    rw [Expr.infer_index_eq_ok_iff]
    constructor
    · intro inferred
      obtain ⟨place, baseType, positionType, baseFound, positionFound, array, indexer, rfl⟩ := inferred
      exact .index place ((baseIff _).mp baseFound) ((positionIff _).mp positionFound) array indexer
    · intro typed
      cases typed with
      | index place baseTyped positionTyped array indexer =>
        exact ⟨place, _, _, (baseIff _).mpr baseTyped, (positionIff _).mpr positionTyped, array, indexer,
          rfl⟩
  | .property base name written =>
    have baseIff := Expr.infer_eq_ok_iff_hasType base
    rw [Expr.infer_property_eq_ok_iff]
    constructor
    · intro inferred
      obtain ⟨place, baseType, baseFound, plain, object, declared, owned⟩ := inferred
      have properties : context.environment.properties baseType.name = some object.property? :=
        congrArg (Option.map ObjectType.property?) declared
      exact .property place ((baseIff _).mp baseFound) plain properties owned
    · intro typed
      cases typed with
      | property place baseTyped plain properties owned =>
        obtain ⟨object, declared, rfl⟩ := Option.map_eq_some_iff.mp properties
        exact ⟨place, _, (baseIff _).mpr baseTyped, plain, object, declared, owned⟩
  | .string value written =>
    exact ⟨fun found => by cases found; exact .string, fun typed => by cases typed; rfl⟩
  | .int value written =>
    exact ⟨fun found => by cases found; exact .int, fun typed => by cases typed; rfl⟩
  | .bool value written =>
    exact ⟨fun found => by cases found; exact .bool, fun typed => by cases typed; rfl⟩
  | .real value written =>
    exact ⟨fun found => by cases found; exact .real, fun typed => by cases typed; rfl⟩

theorem inferArgs_eq_ok_iff_argsFit (whole : Expr) (params : List Ty) (args : List Expr) :
    inferArgs context whole params args = .ok () ↔
      ArgsFit context.environment.properties context.scopes.lookup params args := by
  match params, args with
  | params, [] => exact ⟨fun _ => .done, fun _ => inferArgs_nil context whole params⟩
  | [], arg :: args =>
    exact ⟨fun fits => absurd fits (inferArgs_surplus_ne_ok context whole arg args),
      fun fit => (nomatch fit)⟩
  | param :: params, arg :: args =>
    have argIff := Expr.infer_eq_ok_iff_hasType arg
    have restIff := inferArgs_eq_ok_iff_argsFit whole params args
    rw [inferArgs_cons_eq_ok_iff]
    constructor
    · intro inferred
      obtain ⟨found, argFound, agrees, rest⟩ := inferred
      exact .more ((argIff found).mp argFound) agrees (restIff.mp rest)
    · intro fit
      cases fit with
      | more argTyped agrees rest => exact ⟨_, (argIff _).mpr argTyped, agrees, restIff.mpr rest⟩

end

theorem Expr.truthful_of_settled {expr : Expr} (settled : expr.Settled context) :
    expr.Truthful context.environment.properties context.scopes.lookup := by
  obtain ⟨found, written, inferred⟩ := settled
  refine ⟨found, written, fun other => ?_⟩
  rw [← infer_eq_ok_iff_hasType, inferred, Except.ok.injEq, eq_comm]

theorem Expr.truthful_parts (expr : Expr) {type : Ty} (found : expr.infer context = .ok type) :
    ∀ part ∈ (expr.annotate context).parts,
      part.Truthful context.environment.properties context.scopes.lookup :=
  fun part member => part.truthful_of_settled context (expr.settled_parts context found part member)

end Expressions

section Statements

@[simp] theorem Scopes.bindings_insert (scopes : Scopes) (name : String) (type : Ty) :
    (scopes.insert name type).lookup = Bindings.bind scopes.lookup name type :=
  funext fun other => scopes.lookup_insert name other type

@[simp] theorem Scopes.bindings_enter (scopes : Scopes) : scopes.enter.lookup = scopes.lookup :=
  funext scopes.lookup_enter

theorem Stmt.namesAfter_lookup (scopes : Scopes) (stmt : Stmt) :
    stmt.namesAfter scopes.lookup = (stmt.scopesAfter scopes).lookup := by
  cases stmt with
  | declare name type value => exact (scopes.bindings_insert name type).symm
  | _ => rfl

theorem Stmt.namesAfter_annotate (environment : Environment) (scopes : Scopes) (names : Bindings Ty)
    (stmt : Stmt) : (stmt.annotate environment scopes).namesAfter names = stmt.namesAfter names := by
  cases stmt <;> rfl

def linesScopesAfter (scopes : Scopes) (lines : List Stmt) : Scopes :=
  lines.foldl (fun scopes line => line.scopesAfter scopes) scopes

variable (environment : Environment)

theorem Expr.infer_eq_ok_iff_typed (scopes : Scopes) (expr : Expr) (type : Ty) :
    expr.infer ⟨environment, scopes⟩ = .ok type ↔
      HasType environment.properties scopes.lookup expr type :=
  expr.infer_eq_ok_iff_hasType ⟨environment, scopes⟩ type

mutual

theorem Stmt.stmtTyped_iff (scopes : Scopes) (stmt : Stmt) (behind : Bindings Ty) :
    StmtTyped environment.properties scopes.lookup stmt behind ↔
      stmt.verdict environment scopes = .ok () ∧ behind = (stmt.scopesAfter scopes).lookup := by
  match stmt with
  | .declare name type none =>
    rw [Stmt.verdict_declare_eq_ok_iff, initializerVerdict_none, Stmt.scopesAfter, Scopes.bindings_insert]
    constructor
    · intro typed
      cases typed with
      | declare fresh => exact ⟨⟨fresh, rfl⟩, rfl⟩
    · intro accepted
      obtain ⟨⟨fresh, -⟩, rfl⟩ := accepted
      exact .declare fresh
  | .declare name type (some value) =>
    rw [Stmt.verdict_declare_eq_ok_iff, initializerVerdict_some_eq_ok_iff, Stmt.scopesAfter,
      Scopes.bindings_insert]
    simp only [Expr.infer_eq_ok_iff_typed]
    constructor
    · intro typed
      cases typed with
      | define fresh valueTyped agrees => exact ⟨⟨fresh, _, valueTyped, agrees⟩, rfl⟩
    · intro accepted
      obtain ⟨⟨fresh, _, valueTyped, agrees⟩, rfl⟩ := accepted
      exact .define fresh valueTyped agrees
  | .assign target value =>
    rw [Stmt.verdict_assign_eq_ok_iff]
    simp only [Expr.infer_eq_ok_iff_typed]
    constructor
    · intro typed
      cases typed with
      | assign valueTyped place targetTyped agrees =>
        exact ⟨⟨_, _, valueTyped, place, targetTyped, agrees⟩, rfl⟩
    · intro accepted
      obtain ⟨⟨_, _, valueTyped, place, targetTyped, agrees⟩, rfl⟩ := accepted
      exact .assign valueTyped place targetTyped agrees
  | .branch condition thenBranch elseBranch =>
    have thenIff := Stmt.stmtTyped_iff scopes.enter thenBranch
    have elseIff := elseTyped_iff scopes elseBranch
    rw [Scopes.bindings_enter] at thenIff
    rw [Stmt.verdict_branch_eq_ok_iff]
    simp only [Expr.infer_eq_ok_iff_typed]
    constructor
    · intro typed
      cases typed with
      | branch conditionTyped thenTyped elseTyped agrees =>
        exact ⟨⟨_, conditionTyped, ((thenIff _).mp thenTyped).left, elseIff.mp elseTyped, agrees⟩, rfl⟩
    · intro accepted
      obtain ⟨⟨_, conditionTyped, thenAccepted, elseAccepted, agrees⟩, rfl⟩ := accepted
      exact .branch conditionTyped ((thenIff _).mpr ⟨thenAccepted, rfl⟩) (elseIff.mpr elseAccepted) agrees
  | .call callee args written =>
    rw [Stmt.verdict_call_eq_ok_iff]
    simp only [Expr.infer_eq_ok_iff_typed]
    constructor
    · intro typed
      cases typed with
      | call callTyped => exact ⟨⟨_, callTyped⟩, rfl⟩
    · intro accepted
      obtain ⟨⟨_, callTyped⟩, rfl⟩ := accepted
      exact .call callTyped
  | .block lines =>
    have linesIff := linesTyped_iff scopes.enter lines
    rw [Scopes.bindings_enter] at linesIff
    rw [Stmt.verdict_block]
    constructor
    · intro typed
      cases typed with
      | block linesTyped => exact ⟨((linesIff _).mp linesTyped).left, rfl⟩
    · intro accepted
      obtain ⟨accepted, rfl⟩ := accepted
      exact .block ((linesIff _).mpr ⟨accepted, rfl⟩)

theorem elseTyped_iff (scopes : Scopes) (branch : Option Stmt) :
    ElseTyped environment.properties scopes.lookup branch ↔
      elseVerdict environment scopes branch = .ok () := by
  match branch with
  | none => exact ⟨fun _ => rfl, fun _ => .absent⟩
  | some branch =>
    have branchIff := Stmt.stmtTyped_iff scopes.enter branch
    rw [Scopes.bindings_enter] at branchIff
    rw [elseVerdict_some]
    constructor
    · intro typed
      cases typed with
      | present branchTyped => exact ((branchIff _).mp branchTyped).left
    · intro accepted
      exact .present ((branchIff _).mpr ⟨accepted, rfl⟩)

theorem linesTyped_iff (scopes : Scopes) (lines : List Stmt) (behind : Bindings Ty) :
    LinesTyped environment.properties scopes.lookup lines behind ↔
      linesVerdict environment scopes lines = .ok () ∧ behind = (linesScopesAfter scopes lines).lookup := by
  match lines with
  | [] =>
    constructor
    · intro typed
      cases typed with
      | done => exact ⟨rfl, rfl⟩
    · intro accepted
      obtain ⟨-, rfl⟩ := accepted
      exact .done
  | line :: lines =>
    have lineIff := Stmt.stmtTyped_iff scopes line
    have restIff := linesTyped_iff (line.scopesAfter scopes) lines
    rw [linesVerdict_cons_eq_ok_iff]
    constructor
    · intro typed
      cases typed with
      | more lineTyped restTyped =>
        obtain ⟨lineAccepted, rfl⟩ := (lineIff _).mp lineTyped
        obtain ⟨restAccepted, rfl⟩ := (restIff _).mp restTyped
        exact ⟨⟨lineAccepted, restAccepted⟩, rfl⟩
    · intro accepted
      obtain ⟨⟨lineAccepted, restAccepted⟩, rfl⟩ := accepted
      exact .more ((lineIff _).mpr ⟨lineAccepted, rfl⟩) ((restIff _).mpr ⟨restAccepted, rfl⟩)

end

mutual

theorem Stmt.truthful_annotate (scopes : Scopes) (stmt : Stmt)
    (accepted : stmt.verdict environment scopes = .ok ()) :
    (stmt.annotate environment scopes).Truthful environment.properties scopes.lookup := by
  match stmt with
  | .declare name type none => exact fun _ member => (nomatch member)
  | .declare name type (some value) =>
    obtain ⟨_, fits⟩ := (Stmt.verdict_declare_eq_ok_iff environment scopes name type _).mp accepted
    obtain ⟨_, found, _⟩ := (initializerVerdict_some_eq_ok_iff _ _ type value).mp fits
    exact value.truthful_parts ⟨environment, scopes⟩ found
  | .assign target value =>
    obtain ⟨_, _, valueFound, _, targetFound, _⟩ :=
      (Stmt.verdict_assign_eq_ok_iff environment scopes target value).mp accepted
    simp only [Stmt.annotate, Stmt.Truthful, List.forall_mem_append]
    exact ⟨value.truthful_parts _ valueFound, target.truthful_parts _ targetFound⟩
  | .branch condition thenBranch elseBranch =>
    obtain ⟨_, conditionFound, thenAccepted, elseAccepted, _⟩ :=
      (Stmt.verdict_branch_eq_ok_iff environment scopes condition thenBranch elseBranch).mp accepted
    have thenTruthful := Stmt.truthful_annotate scopes.enter thenBranch thenAccepted
    rw [Scopes.bindings_enter] at thenTruthful
    exact ⟨condition.truthful_parts _ conditionFound, thenTruthful,
      elseTruthful_annotate scopes elseBranch elseAccepted⟩
  | .call callee args type =>
    obtain ⟨_, found⟩ := (Stmt.verdict_call_eq_ok_iff environment scopes callee args type).mp accepted
    exact (Expr.call callee args type).truthful_parts ⟨environment, scopes⟩ found
  | .block lines =>
    have linesTruthful := linesTruthful_annotate scopes.enter lines accepted
    rw [Scopes.bindings_enter] at linesTruthful
    exact linesTruthful

theorem elseTruthful_annotate (scopes : Scopes) (branch : Option Stmt)
    (accepted : elseVerdict environment scopes branch = .ok ()) :
    elseTruthful environment.properties scopes.lookup (annotateElse environment scopes branch) := by
  match branch with
  | none => trivial
  | some branch =>
    have branchTruthful := Stmt.truthful_annotate scopes.enter branch accepted
    rw [Scopes.bindings_enter] at branchTruthful
    exact branchTruthful

theorem linesTruthful_annotate (scopes : Scopes) (lines : List Stmt)
    (accepted : linesVerdict environment scopes lines = .ok ()) :
    linesTruthful environment.properties scopes.lookup (annotateLines environment scopes lines) := by
  match lines with
  | [] => trivial
  | line :: lines =>
    obtain ⟨lineAccepted, rest⟩ := (linesVerdict_cons_eq_ok_iff environment scopes line lines).mp accepted
    have restTruthful := linesTruthful_annotate (line.scopesAfter scopes) lines rest
    rw [← Stmt.namesAfter_lookup] at restTruthful
    refine ⟨Stmt.truthful_annotate scopes line lineAccepted, ?_⟩
    rw [Stmt.namesAfter_annotate]
    exact restTruthful

end

end Statements

section Environments

theorem Bindings.bindAll_of_nodup {α : Type} (bindings : Bindings α) (entries : List (String × α))
    (distinct : (entries.map Prod.fst).Nodup) (name : String) :
    bindings.bindAll entries name =
      ((entries.find? fun entry => entry.1 = name).map Prod.snd).or (bindings name) := by
  induction entries generalizing bindings with
  | nil => rfl
  | cons entry entries ih =>
    obtain ⟨key, value⟩ := entry
    obtain ⟨fresh, rest⟩ := List.nodup_cons.mp distinct
    rw [bindAll, ih _ rest, bind]
    by_cases same : name = key
    · subst same
      have absent : entries.find? (fun entry => entry.1 = name) = none :=
        List.find?_eq_none.mpr fun entry member found =>
          fresh (List.mem_map.mpr ⟨entry, member, of_decide_eq_true found⟩)
      simp only [absent, List.find?_cons_of_pos, decide_true, if_true, Option.map, Option.or]
    · rw [if_neg same, List.find?_cons_of_neg (by simp only [Ne.symm same, decide_false]; exact nofun)]

namespace Table

variable {α : Type}

theorem bindings_insert (table : Table String α) (name : String) (value : α) :
    (table.insert name value).find? = Bindings.bind table.find? name value :=
  funext fun other => table.find?_insert name other value

theorem bindings_insertAll (table : Table String α) (entries : List (String × α)) :
    (table.insertAll entries).find? = Bindings.bindAll table.find? entries := by
  induction entries generalizing table with
  | nil => rfl
  | cons entry entries ih =>
    rw [Bindings.bindAll, ← bindings_insert]
    exact ih (table.insert entry.1 entry.2)

theorem bindings_entries (table : Table String α) (distinct : table.keys.Nodup) :
    Bindings.empty.bindAll table.entries = table.find? := by
  funext name
  rw [Bindings.bindAll_of_nodup _ _ distinct]
  exact Option.or_none

theorem nodup_keys_insert (table : Table String α) (name : String) (value : α)
    (distinct : table.keys.Nodup) : (table.insert name value).keys.Nodup := by
  have kept : (table.erase name).keys.Sublist table.keys := List.filter_sublist.map Prod.fst
  refine List.nodup_cons.mpr ⟨fun member => ?_, distinct.sublist kept⟩
  obtain ⟨entry, found, same⟩ := List.mem_map.mp member
  exact of_decide_eq_true (List.mem_filter.mp found).right same

end Table

theorem Scopes.bindings_insertAll (scopes : Scopes) (entries : List (String × Ty)) :
    (scopes.insertAll entries).lookup = Bindings.bindAll scopes.lookup entries := by
  induction entries generalizing scopes with
  | nil => rfl
  | cons entry entries ih =>
    rw [Bindings.bindAll, ← bindings_insert]
    exact ih (scopes.insert entry.1 entry.2)

namespace Environment

theorem functions_declareAll (environment : Environment) (decls : List Decl) :
    (environment.declareAll decls).functions.find? =
      Bindings.bindAll environment.functions.find? (decls.filterMap Decl.functionType?) := by
  induction decls generalizing environment with
  | nil => rfl
  | cons decl decls ih =>
    have rest := ih (environment.declare decl)
    cases decl with
    | object declaration => exact rest
    | function declaration =>
      simp only [declare, Table.bindings_insert] at rest
      exact rest

theorem properties_declareAll (environment : Environment) (decls : List Decl) :
    (environment.declareAll decls).properties =
      environment.properties.bindAll (decls.filterMap Decl.objectProperties?) := by
  induction decls generalizing environment with
  | nil => rfl
  | cons decl decls ih =>
    have rest := ih (environment.declare decl)
    cases decl with
    | function declaration => exact rest
    | object declaration =>
      have bound : (environment.declare (.object declaration)).properties =
          environment.properties.bind declaration.name (Bindings.empty.bindAll
            (declaration.properties.map fun property => (property.name, property.type))) := by
        have members : declaration.objectType.property? = Bindings.empty.bindAll
            (declaration.properties.map fun property => (property.name, property.type)) :=
          Table.bindings_insertAll .empty _
        funext name
        rw [← members]
        simp only [properties, object?, declare, Table.find?_insert, Bindings.bind]
        split <;> rfl
      rw [bound] at rest
      exact rest

theorem nodup_functions_declareAll (environment : Environment) (decls : List Decl)
    (distinct : environment.functions.keys.Nodup) :
    (environment.declareAll decls).functions.keys.Nodup := by
  induction decls generalizing environment with
  | nil => exact distinct
  | cons decl decls ih =>
    cases decl with
    | object declaration => exact ih (environment.declare (.object declaration)) distinct
    | function declaration =>
      exact ih (environment.declare (.function declaration))
        (Table.nodup_keys_insert _ declaration.name declaration.type distinct)

theorem declareAll_append (environment : Environment) (first second : List Decl) :
    environment.declareAll (first ++ second) = (environment.declareAll first).declareAll second :=
  List.foldl_append

theorem importAll_of_resolved (environment : Environment) (imports : List Import)
    (resolved : ∀ entry ∈ imports, entry.target.isSome = true) :
    environment.importAll imports = .ok (environment.declareAll (imports.flatMap Import.exported)) := by
  induction imports generalizing environment with
  | nil => rfl
  | cons entry imports ih =>
    have rest := fun environment => ih environment fun other member => resolved other (.tail _ member)
    obtain ⟨shared, found⟩ := Option.isSome_iff_exists.mp (resolved entry (.head _))
    have exported : entry.exported = shared.program.exported := by rw [Import.exported, found]; rfl
    simp only [importAll, found, rest, List.flatMap_cons, declareAll_append, exported]

/-- The environment of a program with resolved imports holds what is visible in the program. -/
theorem ofProgram_of_resolved {program : Program} (resolved : program.Resolved) :
    ofProgram program = .ok (Environment.declareAll {} program.visible) := by
  simp only [ofProgram, importAll_of_resolved {} program.imports resolved, Program.visible,
    declareAll_append]
  rfl

end Environment

theorem Program.properties_visible (program : Program) :
    (Environment.declareAll {} program.visible).properties = program.objects :=
  Environment.properties_declareAll {} program.visible

theorem FunctionDecl.lookup_scopes (program : Program) (declaration : FunctionDecl) :
    (declaration.scopes (.declareAll {} program.visible)).lookup = declaration.names program := by
  have functions : Bindings.empty.bindAll
      (Environment.declareAll {} program.visible).functions.entries = program.functions := by
    rw [Table.bindings_entries _ (Environment.nodup_functions_declareAll {} _ List.nodup_nil),
      Environment.functions_declareAll]
    rfl
  rw [scopes, Scopes.bindings_insertAll, Context.ofEnvironment, Scopes.bindings_insertAll, names,
    ← functions]
  rfl

end Environments

/-- The check of a function, in the environment of a program whose imports are resolved, accepts exactly
the functions that are well typed in the program. It then changes nothing but types, and every expression
carries the one type that the rules give it. -/
theorem Context.checkFunction_decides {program : Program} (resolved : program.Resolved) :
    ∃ environment, Environment.ofProgram program = .ok environment ∧ ∀ declaration : FunctionDecl,
      let checked := ((Context.ofEnvironment environment).checkFunction declaration).1
      (checked.outcome = .ok () ↔ declaration.WellTyped program) ∧
        (checked.outcome = .ok () →
          checked.tree.erase = declaration.erase ∧ checked.tree.Truthful program) := by
  refine ⟨_, Environment.ofProgram_of_resolved resolved, fun declaration => ⟨?_, fun accepted => ?_⟩⟩
  · rw [outcome_checkFunction, FunctionDecl.verdict, FunctionDecl.WellTyped, ← declaration.lookup_scopes,
      ← program.properties_visible]
    simp only [linesTyped_iff]
    exact ⟨fun accepted => ⟨_, accepted, rfl⟩, fun ⟨_, accepted, _⟩ => accepted⟩
  · rw [outcome_checkFunction] at accepted
    rw [tree_checkFunction accepted]
    refine ⟨declaration.erase_annotate _, ?_⟩
    have truthful := linesTruthful_annotate _ _ declaration.body accepted
    rw [declaration.lookup_scopes, program.properties_visible] at truthful
    exact truthful

/-- A name that a branch declares is free behind the branch. -/
theorem Context.checkFunction_decides_freed :
    let program : Program := { imports := [⟨"system", some ⟨0, .system⟩⟩] }
    let declaration : FunctionDecl :=
      { name := "main", returns := .void, params := [⟨"text", .string⟩]
        body := [
          .branch (.bool true none) (.declare "copy" .string (some (.var "text" none))) none,
          .declare "copy" .int32 (some (.int 1 none)),
          .call (.var "log" none) [.var "text" none] none] }
    program.Resolved ∧ ∃ environment, Environment.ofProgram program = .ok environment ∧
      ((Context.ofEnvironment environment).checkFunction declaration).1.outcome = .ok () := by
  intro program declaration
  have resolved : program.Resolved := List.forall_mem_singleton.mpr rfl
  have typed : declaration.WellTyped program :=
    ⟨_, .more (.branch .bool (.define rfl (.var rfl) rfl) .absent rfl)
      (.more (.define rfl .int rfl)
        (.more (.call (.call rfl (.var rfl) rfl (.more (.var rfl) rfl .done))) .done))⟩
  obtain ⟨environment, built, decides⟩ := Context.checkFunction_decides resolved
  exact ⟨resolved, environment, built, (decides declaration).left.mpr typed⟩

end TypedTree
