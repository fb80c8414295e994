import TypedTree.Proofs.Tree.Pruning
/-! Walks that end. A handler that never gives a larger node for one keeps a walk within as many levels as the tree has
nodes, and is asked no more often than that. -/

namespace TypedTree

section Counting

def sumOf {α : Type} (most : α → Nat) (values : List α) : Nat := values.foldr (fun value sum => most value + sum) 0

theorem le_sumOf {α : Type} (most : α → Nat) {value : α} {values : List α} (member : value ∈ values) :
    most value ≤ sumOf most values := by
  induction values with
  | nil => cases member
  | cons first values ih =>
    rw [sumOf, List.foldr_cons]
    rcases List.mem_cons.mp member with rfl | later
    · exact Nat.le_add_right _ _
    · exact Nat.le_trans (ih later) (Nat.le_add_left _ _)

/-- The number of nodes of a tree. The program behind an import belongs to it, and counts once for every import. -/
def Node.count (node : Node) : Nat :=
  1 + sumOf (fun child => Node.count child.val) node.children.attach +
    match _target : node.shared? with
    | none => 0
    | some shared => Node.count (.program shared.program)
termination_by sizeOf node
decreasing_by
  · exact Node.sizeOf_children child.property
  · exact Node.sizeOf_shared _target

theorem Node.count_parts (node : Node) (plain : node.shared? = none) : node.count = 1 + sumOf count node.children := by
  rw [count]
  split
  · rw [sumOf, sumOf, Nat.add_zero, List.foldr_attach (f := fun child sum => count child + sum)]
  next target => cases plain.symm.trans target

theorem Node.count_import (path : String) (shared : Module) :
    (importEntry ⟨path, some shared⟩).count = 1 + (program shared.program).count := by
  rw [count]
  rfl

theorem Node.count_pos (node : Node) : 0 < node.count := by
  rw [count]
  omega

/-- A handler never gives a node for another one that has more nodes. -/
def Handler.NeverGrows {σ : Type} (handler : Handler σ) : Prop :=
  ∀ node parent state replaced later, handler node parent state = (.ok replaced, later) →
    replaced.count ≤ node.count

end Counting

section Costs

variable {σ α β : Type} {spent : σ → Nat}

/-- How a step ends: it is not too deep, at most so much has been spent since `before`, and a value holds something. -/
structure EndsWithin (spent : σ → Nat) (before most : Nat) (holds : α → Prop)
    (run : Except VisitError α × WalkState σ) : Prop where
  ends : run.1 ≠ .error .tooDeep
  spends : spent run.2.handler ≤ before + most
  gives : ∀ value, run.1 = .ok value → holds value

namespace EndsWithin

variable {before most : Nat} {holds : α → Prop} {later : WalkState σ}

theorem ofValue {value : α} (spends : spent later.handler ≤ before + most) (held : holds value) :
    EndsWithin spent before most holds (.ok value, later) where
  ends deep := by cases deep
  spends := spends
  gives other same := by
    cases same
    exact held

theorem ofError {error : VisitError} (shallow : error ≠ .tooDeep) (spends : spent later.handler ≤ before + most) :
    EndsWithin spent before most holds (.error error, later) where
  ends deep := shallow (Except.error.inj deep)
  spends := spends
  gives value same := by cases same

end EndsWithin

def Costs (spent : σ → Nat) (step : Walk σ α) (most : Nat) (holds : α → Prop) : Prop :=
  ∀ state, EndsWithin spent (spent state.handler) most holds (step state)

variable {most more : Nat} {holds : α → Prop} {holdsNext : β → Prop}

theorem Costs.mono {step : Walk σ α} (costs : Costs spent step most holds) (room : most ≤ more) :
    Costs spent step more holds := by
  intro state
  obtain ⟨ends, spends, gives⟩ := costs state
  exact ⟨ends, Nat.le_trans spends (Nat.add_le_add_left room _), gives⟩

theorem Costs.andThen {first : Walk σ α} {next : α → Walk σ β} (costs : Costs spent first most holds)
    (further : ∀ value, holds value → Costs spent (next value) more holdsNext) :
    Costs spent (first.andThen next) (most + more) holdsNext := by
  intro state
  obtain ⟨ends, spends, gives⟩ := costs state
  rw [Walk.andThen]
  rcases ran : first state with ⟨error | value, later⟩
  · rw [ran] at ends spends
    exact .ofError (fun deep => ends (by cases deep; rfl)) (Nat.le_trans spends (by omega))
  · rw [ran] at spends gives
    obtain ⟨endsNext, spendsNext, givesNext⟩ := further value (gives value rfl) later
    refine ⟨endsNext, Nat.le_trans spendsNext ?_, givesNext⟩
    rw [← Nat.add_assoc]
    exact Nat.add_le_add_right spends more

theorem Costs.result (value : α) (change : Table Nat Program → Table Nat Program) :
    Costs spent (fun state => (.ok value, { state with shared := change state.shared })) 0 fun _ => True :=
  fun _ => .ofValue (Nat.le_refl _) trivial

theorem costs_ofExcept (result : Except Error α) : Costs spent (Walk.ofExcept result) 0 fun _ => True := by
  cases result with
  | ok value => exact .result value id
  | error error => exact fun _ => .ofError (by simp) (Nat.le_refl _)

theorem costs_all {step : α → Walk σ β} {most : α → Nat} (values : List α)
    (each : ∀ value ∈ values, Costs spent (step value) (most value) fun _ => True) :
    Costs spent (Walk.all step values) (sumOf most values) fun _ => True := by
  induction values with
  | nil => exact .result [] id
  | cons value values ih =>
    obtain ⟨first, rest⟩ := List.forall_mem_cons.mp each
    exact first.andThen fun found _ => (ih rest).andThen fun others _ => .result (found :: others) id

variable {kinds : List NodeKind} {handler : Handler σ}

def Handler.Thrifty (spent : σ → Nat) (handler : Handler σ) : Prop :=
  ∀ node parent state, spent (handler node parent state).2 ≤ spent state + 1

theorem costs_handle (never : handler.NeverGrows) (thrifty : handler.Thrifty spent) (node : Node)
    (parent : Option Node) :
    Costs spent (Walk.handle kinds handler node parent) 1 fun replaced => replaced.count ≤ node.count := by
  intro state
  have spends := thrifty node parent state.handler
  rw [Walk.handle]
  split
  · rcases given : handler node parent state.handler with ⟨error | replaced, later⟩
    · rw [given] at spends
      exact .ofError (by simp) spends
    · rw [given] at spends
      exact .ofValue spends (never _ _ _ _ _ given)
  · exact .ofValue (Nat.le_succ _) (Nat.le_refl _)

theorem costs_below {go : Node → Option Node → Walk σ Node} (node : Node) (most : Nat) (room : node.count ≤ most + 1)
    (each : ∀ inner parent, inner.count ≤ most → Costs spent (go inner parent) inner.count fun _ => True) :
    Costs spent (Walk.below go node) most fun _ => True := by
  have parts (plain : node.shared? = none) :
      Costs spent ((Walk.all (fun child => go child (some node)) node.children).andThen fun children =>
        Walk.ofExcept (node.withChildren children)) most fun _ => True := by
    rw [node.count_parts plain] at room
    have smaller : ∀ child ∈ node.children, child.count ≤ most := by
      intro child member
      have summand := le_sumOf Node.count member
      omega
    have children : Costs spent (Walk.all (fun child => go child (some node)) node.children)
        (sumOf Node.count node.children) fun _ => True :=
      costs_all node.children fun child member => each child (some node) (smaller child member)
    exact (children.andThen fun found _ => costs_ofExcept _).mono (by omega)
  cases node with
  | importEntry entry =>
    obtain ⟨path, target⟩ := entry
    cases target with
    | none => exact (costs_ofExcept (.ok (Node.importEntry ⟨path, none⟩))).mono (Nat.zero_le _)
    | some shared =>
      rw [Node.count_import] at room
      intro state
      simp only [Walk.below]
      cases state.shared.find? shared.id with
      | some walked => exact .ofValue (Nat.le_add_right _ _) trivial
      | none =>
        have whole := each (.program shared.program) (some (.importEntry ⟨path, some shared⟩)) (by omega)
        have imported := whole.andThen fun walked _ => (costs_ofExcept walked.toProgram).andThen fun program _ =>
          Costs.result (Node.importEntry ⟨path, some ⟨shared.id, program⟩⟩) fun table => table.insert shared.id program
        exact imported.mono (by omega) state
  | program | decl | parameter | property | stmt | expr => exact parts rfl

/-- A walk into every node ends within as many levels as the tree has nodes, and spends at most one for each. -/
theorem costs_walkWhole (never : handler.NeverGrows) (thrifty : handler.Thrifty spent) {depth : Nat} {node : Node}
    (room : node.count ≤ depth) (parent : Option Node) :
    Costs spent (walkWhole kinds handler depth node parent) node.count fun _ => True := by
  induction depth generalizing node parent with
  | zero => exact absurd node.count_pos (by omega)
  | succ depth ih =>
    have positive := node.count_pos
    have whole : Costs spent (walkWhole kinds handler (depth + 1) node parent) (1 + (node.count - 1)) fun _ => True :=
      (costs_handle never thrifty node parent).andThen fun replaced fewer =>
        costs_below replaced (node.count - 1) (by omega) fun inner outer smaller => ih (by omega) outer
    exact whole.mono (by omega)

end Costs

/-- A walk ends if the handler never gives a larger node for one. With any depth that is no less than the number of
nodes of the tree, the programs behind imports counted once for every import, it has one and the same outcome, which is
not that the tree is too deep, and it asks the handler at most as often as the tree has nodes. -/
theorem visit_never_grows {σ : Type} {handler : Handler σ} (never : handler.NeverGrows) (kinds : List NodeKind)
    (tree : Node) (outer : Option Node) (state : σ) :
    ∃ result later calls, result ≠ .error .tooDeep ∧ calls.length ≤ tree.count ∧
      ∀ depth, tree.count ≤ depth →
        visit depth kinds handler tree outer state = (result, later) ∧
          visit depth kinds handler.recorded tree outer (state, []) = (result, (later, calls)) := by
  have recordedNever : handler.recorded.NeverGrows := fun node parent state replaced later given =>
    never node parent state.1 replaced later.1 (congrArg (fun answer => (answer.1, answer.2.1)) given)
  let plain := visitWhole tree.count kinds handler tree outer state
  let noted := visitWhole tree.count kinds handler.recorded tree outer (state, [])
  have free : handler.Thrifty fun _ => 0 := fun _ _ _ => Nat.zero_le _
  have plainEnds : plain.1 ≠ .error .tooDeep :=
    (costs_walkWhole never free (Nat.le_refl tree.count) outer { handler := state }).ends
  have costs : EndsWithin (fun state => state.2.length) 0 tree.count (fun _ => True)
      (walkWhole kinds handler.recorded tree.count tree outer { handler := (state, []) }) :=
    costs_walkWhole recordedNever (fun _ _ _ => by simp [Handler.recorded]) (Nat.le_refl tree.count) outer
      { handler := (state, []) }
  have few : noted.2.2.length ≤ tree.count := by
    have spends := costs.spends
    rwa [Nat.zero_add] at spends
  -- noting down what is asked changes neither the outcome nor the state of the handler
  obtain ⟨sameResult, sameState⟩ := shows_walkInto handler.views_recorded (fun _ => true)
    (by simp) (Nat.le_refl tree.count) tree outer { handler := (state, []) } plainEnds
  have same : noted = (plain.1, (plain.2, noted.2.2)) :=
    Prod.ext sameResult (Prod.ext (congrArg WalkState.handler sameState) rfl)
  refine ⟨plain.1, plain.2, noted.2.2, plainEnds, few, fun depth room => ⟨?_, ?_⟩⟩
  · rw [visit, walk_eq_walkInto]
    exact outcome_walkInto (Node.mayContain kinds) (fun _ => id) room plainEnds
  · rw [visit, walk_eq_walkInto, ← same]
    exact outcome_walkInto (Node.mayContain kinds) (fun _ => id) room costs.ends

/-- A sum gives way to its first operand. The program behind the second import is not walked again, but counts. -/
theorem visit_never_grows_operand :
    let shared := Module.mk 0 ⟨[], [.function { name := "main", returns := .void, body :=
      [.declare "x" .int32 (some (.arithmetic .add (.int 1 none) (.int 2 none) none))] }]⟩
    let tree := Node.program ⟨[⟨"first", some shared⟩, ⟨"second", some shared⟩], []⟩
    let handler : Handler Nat := fun node _ calls =>
      match node with
      | .expr (.arithmetic _ left _ _) => (.ok (.expr left), calls + 1)
      | other => (.ok other, calls + 1)
    handler.NeverGrows ∧ tree.count = 17 ∧
      (visit 17 [.importEntry, .arithmetic] handler tree none 0).1 ≠ .error .tooDeep ∧
      (visit 17 [.importEntry, .arithmetic] handler tree none 0).2 = 3 ∧
      (visit 17 [.importEntry, .arithmetic] handler.recorded tree none (0, [])).2.2.length ≤ tree.count := by
  intro shared tree handler
  have never : handler.NeverGrows := by
    intro node parent state replaced later given
    simp only [handler] at given
    split at given
    · cases given
      rw [(Node.expr (.arithmetic _ _ _ _)).count_parts rfl]
      exact Nat.le_trans (le_sumOf Node.count List.mem_cons_self) (Nat.le_add_left _ _)
    · cases given
      exact Nat.le_refl _
  have count : tree.count = 17 := by
    simp [tree, shared, (Node.program _).count_parts rfl, Node.count_import, (Node.decl _).count_parts rfl,
      (Node.stmt _).count_parts rfl, (Node.expr _).count_parts rfl, Node.children, Stmt.children, Expr.children, sumOf]
  obtain ⟨result, later, calls, ends, few, outcome⟩ :=
    visit_never_grows never [.importEntry, .arithmetic] tree none 0
  obtain ⟨plain, noted⟩ := outcome 17 (Nat.le_of_eq count)
  refine ⟨never, count, ?_, rfl, ?_⟩
  · rw [plain]
    exact ends
  · rw [noted]
    exact few

end TypedTree
