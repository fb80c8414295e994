import TypedTree.Proofs.Check.Decision
/-! The stack of scopes behind a check. A statement gives back the stack it was given, whether it is
accepted or refused somewhere inside; only an accepted declaration leaves something behind, its name in the
current scope. A function therefore leaves one scope, with its parameters and the variables that were
declared outside of all branches and blocks before the check ended. -/

namespace TypedTree

def Stmt.declared? : Stmt → Option (String × Ty)
  | .declare name type _ => some (name, type)
  | .assign .. | .branch .. | .call .. | .block .. => none

/-- A name that was not visible is bound in the current scope, and everything else is as before. -/
def Scopes.Extends (extended scopes : Scopes) (name : String) (type : Ty) : Prop :=
  scopes.lookup name = none ∧ ∃ current outer,
    scopes.stack = current :: outer ∧ extended.stack = current.insert name type :: outer

/-- The contexts that arise when functions are checked one after another. -/
inductive Context.Reached (environment : Environment) : Context → Prop where
  | start : Reached environment (.ofEnvironment environment)
  | behind {context : Context} (declaration : FunctionDecl) :
      Reached environment context → Reached environment (context.checkFunction declaration).2

section Scopes

variable {environment : Environment} {scopes : Scopes} {name : String} {type : Ty}

theorem Scopes.extends_insert (fresh : scopes.lookup name = none) :
    (scopes.insert name type).Extends scopes name type := by
  refine ⟨fresh, ?_⟩
  obtain ⟨inner, outermost⟩ := scopes
  cases inner with
  | nil => exact ⟨outermost, [], rfl, rfl⟩
  | cons scope inner => exact ⟨scope, inner ++ [outermost], rfl, rfl⟩

theorem Scopes.insertAll_outermost (table : Table String Ty) (entries : List (String × Ty)) :
    (Scopes.mk [] table).insertAll entries = ⟨[], table.insertAll entries⟩ := by
  induction entries generalizing table with
  | nil => rfl
  | cons entry entries ih => exact ih (table.insert entry.1 entry.2)

theorem Scopes.lookup_outermost (table : Table String Ty) (name : String) :
    (Scopes.mk [] table).lookup name = table.find? name := by
  simp only [lookup, stack, List.nil_append, List.findSome?_cons, List.findSome?_nil]
  cases table.find? name <;> rfl

theorem linesScopesAfter_eq (scopes : Scopes) (lines : List Stmt) :
    linesScopesAfter scopes lines = scopes.insertAll (lines.filterMap Stmt.declared?) := by
  induction lines generalizing scopes with
  | nil => rfl
  | cons line lines ih =>
    have rest := ih (line.scopesAfter scopes)
    cases line <;> exact rest

theorem fresh_of_linesVerdict {lines : List Stmt} (accepted : linesVerdict environment scopes lines = .ok ()) :
    ((lines.filterMap Stmt.declared?).map Prod.fst).Nodup ∧
      ∀ name ∈ (lines.filterMap Stmt.declared?).map Prod.fst, scopes.lookup name = none := by
  induction lines generalizing scopes with
  | nil => exact ⟨List.nodup_nil, nofun⟩
  | cons line lines ih =>
    obtain ⟨lineAccepted, rest⟩ := (linesVerdict_cons_eq_ok_iff environment scopes line lines).mp accepted
    obtain ⟨distinct, absent⟩ := ih rest
    cases line with
    | declare name type value =>
      obtain ⟨fresh, -⟩ := (Stmt.verdict_declare_eq_ok_iff environment scopes name type value).mp lineAccepted
      -- behind the declaration its name is visible, so that no later line declares it again
      have later : ∀ other ∈ (lines.filterMap Stmt.declared?).map Prod.fst,
          other ≠ name ∧ scopes.lookup other = none := by
        intro other member
        have unseen := absent other member
        rw [Stmt.scopesAfter, Scopes.lookup_insert] at unseen
        split at unseen
        · cases unseen
        next different => exact ⟨different, unseen⟩
      refine ⟨List.nodup_cons.mpr ⟨fun again => (later name again).left rfl, distinct⟩, ?_⟩
      exact List.forall_mem_cons.mpr ⟨fresh, fun other member => (later other member).right⟩
    | assign | branch | call | block => exact ⟨distinct, absent⟩

/-- A check of lines accepts some of them and leaves the scopes behind these; if there is a line behind
them, it is the one that is refused, in those scopes. -/
theorem checkLines_stops (environment : Environment) (scopes : Scopes) (lines : List Stmt) :
    ∃ accepted rest, lines = accepted ++ rest ∧ linesVerdict environment scopes accepted = .ok () ∧
      (checkLines environment scopes lines).scopes = linesScopesAfter scopes accepted ∧
      match (checkLines environment scopes lines).outcome with
      | .ok () => rest = []
      | .error problem => ∃ line later, rest = line :: later ∧
          line.verdict environment (linesScopesAfter scopes accepted) = .error problem := by
  induction lines generalizing scopes with
  | nil => exact ⟨[], [], rfl, rfl, rfl, rfl⟩
  | cons line lines ih =>
    have behind := line.scopes_check environment scopes
    rw [checkLines]
    cases judged : (line.check environment scopes).outcome with
    | error problem =>
      simp only [judged] at behind
      exact ⟨[], line :: lines, rfl, rfl, behind, line, lines, rfl, judged⟩
    | ok value =>
      simp only [judged] at behind
      obtain ⟨accepted, rest, rfl, fine, reached, stops⟩ := ih (line.scopesAfter scopes)
      simp only [behind]
      refine ⟨line :: accepted, rest, rfl, ?_, reached, stops⟩
      exact (linesVerdict_cons_eq_ok_iff environment scopes line accepted).mpr ⟨judged, fine⟩

end Scopes

theorem Stmt.check_gives_back (environment : Environment) (scopes : Scopes) (stmt : Stmt) :
    let checked := stmt.check environment scopes
    (∀ name type, stmt.declared? = some (name, type) → checked.outcome = .ok () →
      checked.scopes.Extends scopes name type) ∧
    (stmt.declared? = none ∨ checked.outcome ≠ .ok () → checked.scopes = scopes) := by
  intro checked
  have behind : checked.scopes = _ := stmt.scopes_check environment scopes
  constructor
  · intro name type declares accepted
    change checked.scopes = match checked.outcome with | .ok () => _ | .error _ => _ at behind
    rw [accepted] at behind
    rw [behind]
    cases stmt with
    | declare own ownType value =>
      cases declares
      exact Scopes.extends_insert
        ((Stmt.verdict_declare_eq_ok_iff environment scopes name type value).mp accepted).left
    | assign | branch | call | block => cases declares
  · intro kept
    rw [behind]
    split
    next accepted =>
      cases stmt with
      | declare own ownType value =>
        rcases kept with silent | refused
        · cases silent
        · exact absurd accepted refused
      | assign | branch | call | block => rfl
    next => rfl

namespace Context

variable {environment : Environment} {context : Context}

theorem checkFunction_stops (environment : Environment) (held : Table String Ty)
    (declaration : FunctionDecl) :
    let named := held.insertAll (declaration.params.map fun parameter => (parameter.name, parameter.type))
    let checked := (Context.mk environment ⟨[], held⟩).checkFunction declaration
    ∃ accepted rest, declaration.body = accepted ++ rest ∧
      linesVerdict environment ⟨[], named⟩ accepted = .ok () ∧
      checked.2.scopes = ⟨[], named.insertAll (accepted.filterMap Stmt.declared?)⟩ ∧
      match checked.1.outcome with
      | .ok () => rest = []
      | .error problem => ∃ line later, rest = line :: later ∧
          line.verdict environment checked.2.scopes = .error problem := by
  intro named checked
  obtain ⟨accepted, rest, split, fine, behind, stops⟩ :=
    checkLines_stops environment ⟨[], named⟩ declaration.body
  have scopes : checked.2.scopes = (checkLines environment ⟨[], named⟩ declaration.body).scopes := by
    simp only [checked, checkFunction, Scopes.insertAll_outermost, named]
  have outcome : checked.1.outcome = (checkLines environment ⟨[], named⟩ declaration.body).outcome := by
    simp only [checked, checkFunction, Scopes.insertAll_outermost, named]
  rw [linesScopesAfter_eq, Scopes.insertAll_outermost] at behind stops
  rw [outcome, scopes, behind]
  exact ⟨accepted, rest, split, fine, rfl, stops⟩

theorem Reached.single (reached : Reached environment context) :
    ∃ held, context = ⟨environment, ⟨[], held⟩⟩ := by
  induction reached with
  | start =>
    rw [ofEnvironment, Scopes.empty, Scopes.insertAll_outermost]
    exact ⟨_, rfl⟩
  | behind declaration _ before =>
    obtain ⟨held, rfl⟩ := before
    obtain ⟨_, _, _, _, behind, _⟩ := checkFunction_stops environment held declaration
    exact ⟨_, congrArg (Context.mk environment) behind⟩

/-- Checks give back the stack of scopes. A statement, checked with any stack, leaves the same stack, unless
it is an accepted declaration, which binds a new name in the current scope. A function, checked behind any
others, leaves one scope: what was there before it, its parameters in place of what had their names, and the
variables of the lines ahead of the one that is refused, all under names that were not in use. -/
theorem checks_restore_scopes (reached : Reached environment context) :
    (∀ (scopes : Scopes) (stmt : Stmt),
      let checked := stmt.check environment scopes
      (∀ name type, stmt.declared? = some (name, type) → checked.outcome = .ok () →
        checked.scopes.Extends scopes name type) ∧
      (stmt.declared? = none ∨ checked.outcome ≠ .ok () → checked.scopes = scopes)) ∧
    ∀ declaration : FunctionDecl,
      let checked := context.checkFunction declaration
      ∃ held accepted rest, context.scopes.stack = [held] ∧ declaration.body = accepted ++ rest ∧
        let named := held.insertAll (declaration.params.map fun parameter => (parameter.name, parameter.type))
        let declared := accepted.filterMap Stmt.declared?
        (checkLines environment ⟨[], named⟩ accepted).outcome = .ok () ∧
        checked.2.scopes.stack = [named.insertAll declared] ∧
        (declared.map Prod.fst).Nodup ∧ (∀ name ∈ declared.map Prod.fst, named.find? name = none) ∧
        match checked.1.outcome with
        | .ok () => rest = []
        | .error problem => ∃ line later, rest = line :: later ∧
            (line.check environment checked.2.scopes).outcome = .error problem := by
  refine ⟨Stmt.check_gives_back environment, fun declaration => ?_⟩
  obtain ⟨held, rfl⟩ := reached.single
  obtain ⟨accepted, rest, split, fine, behind, stops⟩ :=
    checkFunction_stops environment held declaration
  obtain ⟨distinct, absent⟩ := fresh_of_linesVerdict fine
  refine ⟨held, accepted, rest, rfl, split, fine, congrArg Scopes.stack behind, distinct, ?_, stops⟩
  intro name member
  rw [← Scopes.lookup_outermost]
  exact absent name member

/-- What a function leaves that is refused inside a branch: the variable it declared ahead of the branch, and
nothing of the branch. The next function may use the name from the branch, but not the other one. -/
theorem checks_restore_scopes_refused :
    let held : Table String Ty := ⟨[("count", .int32), ("text", .string)]⟩
    let next := FunctionDecl.mk false "next" .void [⟨"text", .bool⟩]
      [.declare "inner" .int32 none, .declare "count" .bool none]
    let checked := (Context.mk {} ⟨[], held⟩).checkFunction next
    Reached {} ⟨{}, ⟨[], held⟩⟩ ∧ checked.1.outcome = .error (.duplicateVariable "count") ∧
      ∃ accepted line later, next.body = accepted ++ line :: later ∧ checked.2.scopes.stack =
        [(held.insertAll [("text", .bool)]).insertAll (accepted.filterMap Stmt.declared?)] := by
  intro held next checked
  have reached : Reached {} ⟨{}, ⟨[], held⟩⟩ := .behind
    (.mk false "refused" .void [⟨"text", .string⟩] [.declare "count" .int32 (some (.int 1 none)),
      .branch (.bool true none)
        (.block [.declare "inner" .bool none, .assign (.var "absent" none) (.int 1 none)]) none,
      .declare "later" .bool none]) .start
  have outcome : checked.1.outcome = .error (.duplicateVariable "count") := rfl
  obtain ⟨_, accepted, rest, single, split, -, stack, -, -, stops⟩ :=
    (checks_restore_scopes reached).right next
  obtain rfl := List.singleton_inj.mp single
  rw [outcome] at stops
  obtain ⟨line, later, rfl, -⟩ := stops
  exact ⟨reached, outcome, accepted, line, later, split, stack⟩

end Context

end TypedTree
