import TypedTree.Proofs.Check.Restored
/-! Nothing is shadowed. Parameters replace what has their names only while the outermost scope is the only
one, and a variable is declared only if no open scope has its name. So a name has one binding in the whole
stack of scopes at every moment of a run, deep inside branches and blocks, and behind functions that were
refused: the order in which the scopes are searched does not matter. -/

namespace TypedTree

/-- The names bound in a stack of scopes, from the innermost scope to the outermost. -/
def Scopes.bound (scopes : Scopes) : List String := scopes.stack.flatMap Table.keys

section Moments

variable (environment : Environment)

mutual

/-- The stacks of scopes that the check of a statement holds at some moment, given the stack it starts with. -/
inductive Stmt.Holds : Scopes → Stmt → Scopes → Prop where
  | before {scopes stmt} : Stmt.Holds scopes stmt scopes
  | behind {scopes stmt} : Stmt.Holds scopes stmt (stmt.check environment scopes).scopes
  | inThen {scopes condition thenBranch elseBranch moment type} :
      (condition.check ⟨environment, scopes⟩).outcome = .ok type →
      Stmt.Holds scopes.enter thenBranch moment →
      Stmt.Holds scopes (.branch condition thenBranch elseBranch) moment
  | inElse {scopes condition thenBranch elseBranch moment type} :
      (condition.check ⟨environment, scopes⟩).outcome = .ok type →
      (thenBranch.check environment scopes.enter).outcome = .ok () →
      ElseHolds (thenBranch.check environment scopes.enter).scopes.exit elseBranch moment →
      Stmt.Holds scopes (.branch condition thenBranch elseBranch) moment
  | inBlock {scopes lines moment} :
      LinesHold scopes.enter lines moment → Stmt.Holds scopes (.block lines) moment

inductive ElseHolds : Scopes → Option Stmt → Scopes → Prop where
  | before {scopes branch} : ElseHolds scopes branch scopes
  | inside {scopes branch moment} : Stmt.Holds scopes.enter branch moment → ElseHolds scopes (some branch) moment

/-- A line is checked only behind lines that were accepted, with the stack they leave. -/
inductive LinesHold : Scopes → List Stmt → Scopes → Prop where
  | before {scopes lines} : LinesHold scopes lines scopes
  | first {scopes line lines moment} :
      Stmt.Holds scopes line moment → LinesHold scopes (line :: lines) moment
  | later {scopes line lines moment} :
      (line.check environment scopes).outcome = .ok () →
      LinesHold (line.check environment scopes).scopes lines moment →
      LinesHold scopes (line :: lines) moment

end

end Moments

/-- The stacks of scopes that the check of a function holds: while it binds the parameters one after another,
and then in the body. -/
def Context.Holds (context : Context) (declaration : FunctionDecl) (moment : Scopes) : Prop :=
  let named := declaration.params.map fun parameter => (parameter.name, parameter.type)
  (∃ count, moment = context.scopes.insertAll (named.take count)) ∨
    LinesHold context.environment (context.scopes.insertAll named) declaration.body moment

section Bound

variable {scopes : Scopes}

theorem Table.find?_eq_none_iff {α : Type} (table : Table String α) (name : String) :
    table.find? name = none ↔ name ∉ table.keys := by
  simp only [find?, keys, Option.map_eq_none_iff, List.find?_eq_none, decide_eq_true_eq, List.mem_map,
    not_exists, not_and]

theorem Scopes.lookup_eq_none_iff (scopes : Scopes) (name : String) :
    scopes.lookup name = none ↔ name ∉ scopes.bound := by
  simp only [lookup, bound, List.findSome?_eq_none_iff, Table.find?_eq_none_iff, List.mem_flatMap, not_exists,
    not_and]

theorem Scopes.bound_insert (scopes : Scopes) (name : String) (type : Ty) :
    ∃ (current : Table String Ty) (outer : List String), scopes.bound = current.keys ++ outer ∧
      (scopes.insert name type).bound = (current.insert name type).keys ++ outer := by
  obtain ⟨inner, outermost⟩ := scopes
  cases inner with
  | nil => exact ⟨outermost, [], rfl, rfl⟩
  | cons scope inner => exact ⟨scope, (inner ++ [outermost]).flatMap Table.keys, rfl, rfl⟩

theorem Scopes.nodup_bound_enter (once : scopes.bound.Nodup) : scopes.enter.bound.Nodup := once

theorem Scopes.nodup_bound_insert (once : scopes.bound.Nodup) {name : String}
    (fresh : scopes.lookup name = none) (type : Ty) : (scopes.insert name type).bound.Nodup := by
  rw [lookup_eq_none_iff] at fresh
  obtain ⟨current, outer, before, behind⟩ := scopes.bound_insert name type
  rw [before, List.nodup_append'] at once
  rw [before, List.mem_append, not_or] at fresh
  rw [behind, List.nodup_append']
  refine ⟨current.nodup_keys_insert name type once.left, once.right.left, ?_⟩
  rintro other (_ | ⟨_, kept⟩) outside
  · exact fresh.right outside
  · exact once.right.right ((List.filter_sublist.map Prod.fst).subset kept) outside

/-- A name has its binding in one scope, so that it is found from either end of the stack. -/
theorem Scopes.lookup_eq_reverse (once : scopes.bound.Nodup) (name : String) :
    scopes.lookup name = scopes.stack.reverse.findSome? fun scope => scope.find? name := by
  unfold lookup
  unfold bound at once
  generalize scopes.stack = stack at once ⊢
  induction stack with
  | nil => rfl
  | cons scope outer ih =>
    rw [List.flatMap_cons, List.nodup_append'] at once
    rw [List.reverse_cons, List.findSome?_append, ← ih once.right.left, List.findSome?_cons]
    cases here : scope.find? name with
    | none => simp [here]
    | some type =>
      have bindsHere : name ∈ scope.keys := by
        by_contra absent
        cases here.symm.trans ((scope.find?_eq_none_iff name).mpr absent)
      have outside : outer.findSome? (fun scope => scope.find? name) = none := by
        rw [List.findSome?_eq_none_iff]
        intro other member
        rw [Table.find?_eq_none_iff]
        exact fun again => once.right.right bindsHere (List.mem_flatMap_of_mem member again)
      simp [here, outside]

/-- No two scopes of a stack that binds every name once have a name in common. -/
theorem Scopes.pairwise_stack (once : scopes.bound.Nodup) :
    scopes.stack.Pairwise fun inner outer => ∀ name, (inner.find? name).isSome → outer.find? name = none := by
  refine (List.nodup_flatMap.mp once).right.imp fun {inner outer} apart name found => ?_
  rw [Table.find?_eq_none_iff]
  refine apart ?_
  by_contra absent
  rw [(inner.find?_eq_none_iff name).mpr absent] at found
  cases found

end Bound

section Steps

variable {environment : Environment}

theorem Stmt.nodup_bound_check {scopes : Scopes} (once : scopes.bound.Nodup) (stmt : Stmt) :
    (stmt.check environment scopes).scopes.bound.Nodup := by
  rw [stmt.scopes_check environment scopes]
  split
  next accepted =>
    cases stmt with
    | declare name type value =>
      have fresh := ((Stmt.verdict_declare_eq_ok_iff environment scopes name type value).mp accepted).left
      exact Scopes.nodup_bound_insert once fresh type
    | assign | branch | call | block => exact once
  next => exact once

mutual

theorem Stmt.Holds.nodup_bound {scopes moment : Scopes} {stmt : Stmt}
    (held : Stmt.Holds environment scopes stmt moment) (once : scopes.bound.Nodup) : moment.bound.Nodup := by
  match held with
  | .before => exact once
  | .behind => exact Stmt.nodup_bound_check once stmt
  | .inThen _ inside => exact Stmt.Holds.nodup_bound inside (Scopes.nodup_bound_enter once)
  | .inElse _ _ inside =>
    rw [Stmt.exit_of_scopes_check (Stmt.scopes_check environment scopes.enter _)] at inside
    exact ElseHolds.nodup_bound inside once
  | .inBlock inside => exact LinesHold.nodup_bound inside (Scopes.nodup_bound_enter once)

theorem ElseHolds.nodup_bound {scopes moment : Scopes} {branch : Option Stmt}
    (held : ElseHolds environment scopes branch moment) (once : scopes.bound.Nodup) : moment.bound.Nodup := by
  match held with
  | .before => exact once
  | .inside inside => exact Stmt.Holds.nodup_bound inside (Scopes.nodup_bound_enter once)

theorem LinesHold.nodup_bound {scopes moment : Scopes} {lines : List Stmt}
    (held : LinesHold environment scopes lines moment) (once : scopes.bound.Nodup) : moment.bound.Nodup := by
  match held with
  | .before => exact once
  | .first inside => exact Stmt.Holds.nodup_bound inside once
  | .later _ rest => exact LinesHold.nodup_bound rest (Stmt.nodup_bound_check once _)

end

end Steps

theorem LinesHold.behind (environment : Environment) (scopes : Scopes) (lines : List Stmt) :
    LinesHold environment scopes lines (checkLines environment scopes lines).scopes := by
  induction lines generalizing scopes with
  | nil => exact .before
  | cons line lines ih =>
    rw [checkLines]
    cases judged : (line.check environment scopes).outcome with
    | error problem => exact .first .behind
    | ok value => exact .later judged (ih _)

namespace Context

variable {environment : Environment} {context : Context} {declaration : FunctionDecl} {moment : Scopes}

/-- Parameters are bound in the only scope that is open, in place of what has their names. -/
theorem nodup_bound_insertAll {held : Table String Ty} (once : (Scopes.mk [] held).bound.Nodup)
    (entries : List (String × Ty)) : ((Scopes.mk [] held).insertAll entries).bound.Nodup := by
  induction entries generalizing held with
  | nil => exact once
  | cons entry entries ih =>
    have only : ∀ table : Table String Ty, (Scopes.mk [] table).bound = table.keys := fun table => by
      simp [Scopes.bound, Scopes.stack]
    apply ih
    rw [only] at once ⊢
    exact held.nodup_keys_insert entry.1 entry.2 once

theorem Holds.nodup_bound {held : Table String Ty} (once : (Scopes.mk [] held).bound.Nodup)
    (holds : (Context.mk environment ⟨[], held⟩).Holds declaration moment) : moment.bound.Nodup := by
  rcases holds with ⟨count, rfl⟩ | inside
  · exact nodup_bound_insertAll once _
  · exact inside.nodup_bound (nodup_bound_insertAll once _)

theorem Reached.nodup_bound (reached : Reached environment context) : context.scopes.bound.Nodup := by
  induction reached with
  | start =>
    have none : (Scopes.mk [] .empty).bound.Nodup := List.nodup_nil
    exact nodup_bound_insertAll none _
  | behind declaration before once =>
    obtain ⟨held, rfl⟩ := before.single
    exact Holds.nodup_bound once (.inr (.behind _ _ _))

/-- At every moment of the check of a function, behind any others, each name has one binding in all open
scopes. No two of the scopes bind the same name, and it makes no difference from which end they are
searched. -/
theorem one_binding (reached : Reached environment context) (held : context.Holds declaration moment) :
    moment.bound.Nodup ∧
      (moment.stack.Pairwise fun inner outer => ∀ name, (inner.find? name).isSome → outer.find? name = none) ∧
      ∀ name, moment.lookup name = moment.stack.reverse.findSome? fun scope => scope.find? name := by
  have once : moment.bound.Nodup := by
    have before := reached.nodup_bound
    obtain ⟨_, rfl⟩ := reached.single
    exact held.nodup_bound before
  exact ⟨once, Scopes.pairwise_stack once, Scopes.lookup_eq_reverse once⟩

/-- A function that is refused inside a branch leaves a variable behind. The next function declares another one
in a block inside a branch, where its parameter is still the only binding of its name. -/
theorem one_binding_nested :
    let held : Table String Ty := ⟨[("count", .int32), ("text", .string)]⟩
    let next := FunctionDecl.mk false "next" .void [⟨"text", .bool⟩]
      [.branch (.var "text" none) (.block [.declare "inner" .int32 none, .declare "count" .bool none]) none]
    let moment : Scopes := ⟨[⟨[("inner", .int32)]⟩, ⟨[]⟩], ⟨[("text", .bool), ("count", .int32)]⟩⟩
    Reached {} ⟨{}, ⟨[], held⟩⟩ ∧ (Context.mk {} ⟨[], held⟩).Holds next moment ∧
      moment.bound = ["inner", "text", "count"] ∧ moment.bound.Nodup ∧
      ∀ name, moment.lookup name = moment.stack.reverse.findSome? fun scope => scope.find? name := by
  intro held next moment
  have reached : Reached {} ⟨{}, ⟨[], held⟩⟩ := .behind
    (.mk false "refused" .void [⟨"text", .string⟩] [.declare "count" .int32 (some (.int 1 none)),
      .branch (.bool true none) (.block [.declare "inner" .bool none, .assign (.var "absent" none) (.int 1 none)])
        none]) .start
  have holds : (Context.mk {} ⟨[], held⟩).Holds next moment :=
    .inr (.first (.inThen rfl (.inBlock (.first .behind))))
  obtain ⟨once, -, bothWays⟩ := one_binding reached holds
  exact ⟨reached, holds, rfl, once, bothWays⟩

end Context

end TypedTree
