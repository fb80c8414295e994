import TypedTree.Proofs.Tree.Following
/-! A walk leaves out the nodes below which nothing can be asked for. It does what a walk into every node does, as
long as that one ends: it asks the handler about the same nodes and makes the same tree, or fails in the same way. -/

namespace TypedTree

section Whole

variable {σ : Type}

namespace Walk

/-- Goes on below a node, with the program behind an import unless it has been walked, and with the parts of any
other node. -/
def below (go : Node → Option Node → Walk σ Node) : Node → Walk σ Node
  | .importEntry ⟨path, none⟩ => ofExcept (.ok (.importEntry ⟨path, none⟩))
  | .importEntry ⟨path, some shared⟩ => fun state =>
    match state.shared.find? shared.id with
    | some walked => (.ok (.importEntry ⟨path, some ⟨shared.id, walked⟩⟩), state)
    | none =>
      ((go (.program shared.program) (some (.importEntry ⟨path, some shared⟩))).andThen
        fun walked => (ofExcept walked.toProgram).andThen fun program => fun state =>
          (.ok (.importEntry ⟨path, some ⟨shared.id, program⟩⟩),
            { state with shared := state.shared.insert shared.id program })) state
  | node =>
    (all (fun child => go child (some node)) node.children).andThen fun children =>
      ofExcept (node.withChildren children)

end Walk

open Walk

def walkInto (enters : Node → Bool) (kinds : List NodeKind) (handler : Handler σ) :
    (depth : Nat) → Node → (parent : Option Node) → Walk σ Node
  | 0, _, _ => fun state => (.error .tooDeep, state)
  | depth + 1, node, parent =>
    (handle kinds handler node parent).andThen fun node =>
      if enters node then below (walkInto enters kinds handler depth) node else ofExcept (.ok node)

abbrev walkWhole (kinds : List NodeKind) (handler : Handler σ) := walkInto (fun _ => true) kinds handler

/-- Replaces every node of the kinds in a tree by what the handler makes of it, and goes into every node for it. -/
def visitWhole (depth : Nat) (kinds : List NodeKind) (handler : Handler σ) (tree : Node) (parent : Option Node)
    (state : σ) : Except VisitError Node × σ :=
  let walked := walkWhole kinds handler depth tree parent { handler := state }
  (walked.1, walked.2.handler)

theorem walk_eq_walkInto (kinds : List NodeKind) (handler : Handler σ) (depth : Nat) :
    walk kinds handler depth = walkInto (Node.mayContain kinds) kinds handler depth := by
  induction depth with
  | zero => rfl
  | succ depth ih =>
    funext node parent
    rw [walk, walkInto, ih]
    congr 1
    funext replaced
    cases replaced.mayContain kinds with
    | false => rfl
    | true =>
      cases replaced with
      | importEntry entry => obtain ⟨_, _ | _⟩ := entry <;> rfl
      | _ => rfl

end Whole

section Idle

variable {σ α β : Type}

/-- A step that gives a value and does nothing else, unless it is too deep for it. -/
def Idle (step : Walk σ α) (value : α) : Prop :=
  ∀ state, (step state).1 = .error .tooDeep ∨ step state = (.ok value, state)

theorem Idle.andThen {first : Walk σ α} {next : α → Walk σ β} {value : α} {other : β} (idle : Idle first value)
    (idleNext : Idle (next value) other) : Idle (first.andThen next) other := by
  intro state
  rw [Walk.andThen]
  rcases ran : first state with ⟨result, later⟩
  rcases idle state with deep | same
  · rw [ran] at deep
    cases deep
    exact .inl rfl
  · rw [ran] at same
    cases same
    exact idleNext state

theorem idle_all {step : α → Walk σ α} (values : List α) (each : ∀ value ∈ values, Idle (step value) value) :
    Idle (Walk.all step values) values := by
  induction values with
  | nil => exact fun state => .inr rfl
  | cons value values ih =>
    obtain ⟨first, rest⟩ := List.forall_mem_cons.mp each
    exact first.andThen ((ih rest).andThen fun state => .inr rfl)

variable {kinds : List NodeKind} {handler : Handler σ}

theorem idle_handle {node : Node} (free : kinds.contains node.kind = false) (parent : Option Node) :
    Idle (Walk.handle kinds handler node parent) node := by
  intro state
  rw [Walk.handle, free]
  exact .inr rfl

theorem idle_below {go : Node → Option Node → Walk σ Node} {node : Node} (plain : node.shared? = none)
    (each : ∀ child ∈ node.children, Idle (go child (some node)) child) : Idle (Walk.below go node) node := by
  have parts : Idle ((Walk.all (fun child => go child (some node)) node.children).andThen fun children =>
      Walk.ofExcept (node.withChildren children)) node := by
    refine (idle_all node.children each).andThen ?_
    rw [node.withChildren_children]
    exact fun state => .inr rfl
  match node with
  | .importEntry ⟨_, none⟩ => exact fun state => .inr rfl
  | .importEntry ⟨_, some _⟩ => cases plain
  | .program _ | .decl _ | .parameter _ | .property _ | .stmt _ | .expr _ => exact parts

variable (handler) in
theorem idle_below_of_pruned {node : Node} (pruned : node.mayContain kinds = false) (depth : Nat) :
    Idle (Walk.below (walkWhole kinds handler depth) node) node := by
  induction depth generalizing node with
  | zero => exact idle_below (Node.shared?_of_pruned pruned) fun child _ state => .inl rfl
  | succ depth ih =>
    refine idle_below (Node.shared?_of_pruned pruned) fun child member => ?_
    obtain ⟨unasked, deeper⟩ := Node.free_children pruned child member
    exact (idle_handle unasked (some node)).andThen (ih deeper)

end Idle

section Shown

variable {σ τ α β : Type}

def WalkState.view (view : σ → τ) (state : WalkState σ) : WalkState τ := ⟨view state.handler, state.shared⟩

/-- A step does what another one does on a view of its state, unless that one is too deep for it. -/
def Shows (view : σ → τ) (step : Walk σ α) (other : Walk τ α) : Prop :=
  ∀ state, (other (state.view view)).1 ≠ .error .tooDeep →
    (step state).1 = (other (state.view view)).1 ∧ (step state).2.view view = (other (state.view view)).2

variable {view : σ → τ}

theorem Shows.result (value : Except VisitError α) (change : Table Nat Program → Table Nat Program) :
    Shows view (fun state => (value, { state with shared := change state.shared }))
      (fun state => (value, { state with shared := change state.shared })) :=
  fun _ _ => ⟨rfl, rfl⟩

theorem Shows.andThen {first : Walk σ α} {other : Walk τ α} {next : α → Walk σ β} {next' : α → Walk τ β}
    (shows : Shows view first other) (showsNext : ∀ value, Shows view (next value) (next' value)) :
    Shows view (first.andThen next) (other.andThen next') := by
  intro state ends
  have begun := shows state
  simp only [Walk.andThen] at ends ⊢
  rcases ran : first state with ⟨result, later⟩
  rcases shown : other (state.view view) with ⟨result', later'⟩
  rw [ran, shown] at begun
  rw [shown] at ends
  cases result' with
  | error error =>
    obtain ⟨same, sameState⟩ := begun fun deep => ends (by cases deep; rfl)
    cases same
    exact ⟨rfl, sameState⟩
  | ok value =>
    obtain ⟨same, sameState⟩ := begun fun deep => by cases deep
    cases same
    cases sameState
    exact showsNext value later ends

theorem shows_all {step : α → Walk σ β} {other : α → Walk τ β} (values : List α)
    (each : ∀ value ∈ values, Shows view (step value) (other value)) :
    Shows view (Walk.all step values) (Walk.all other values) := by
  induction values with
  | nil => exact .result (.ok []) id
  | cons value values ih =>
    obtain ⟨first, rest⟩ := List.forall_mem_cons.mp each
    exact first.andThen fun found => (ih rest).andThen fun others => .result (.ok (found :: others)) id

theorem shows_ofExcept (result : Except Error α) : Shows view (Walk.ofExcept result) (Walk.ofExcept result) := by
  cases result with
  | ok value => exact .result (.ok value) id
  | error error => exact .result (.error (.failed error)) id

theorem shows_below {go : Node → Option Node → Walk σ Node} {other : Node → Option Node → Walk τ Node}
    (each : ∀ node parent, Shows view (go node parent) (other node parent)) (node : Node) :
    Shows view (Walk.below go node) (Walk.below other node) := by
  have parts : Shows view
      ((Walk.all (fun child => go child (some node)) node.children).andThen fun children =>
        Walk.ofExcept (node.withChildren children))
      ((Walk.all (fun child => other child (some node)) node.children).andThen fun children =>
        Walk.ofExcept (node.withChildren children)) :=
    (shows_all node.children fun child _ => each child (some node)).andThen fun children => shows_ofExcept _
  match node with
  | .importEntry ⟨_, none⟩ => exact shows_ofExcept _
  | .importEntry ⟨path, some shared⟩ =>
    intro state
    simp only [Walk.below, WalkState.view]
    cases state.shared.find? shared.id with
    | some walked => exact fun _ => ⟨rfl, rfl⟩
    | none =>
      refine ((each _ _).andThen fun walked => (shows_ofExcept walked.toProgram).andThen fun program => ?_) state
      exact .result (.ok (Node.importEntry ⟨path, some ⟨shared.id, program⟩⟩)) fun table =>
        table.insert shared.id program
  | .program _ | .decl _ | .parameter _ | .property _ | .stmt _ | .expr _ => exact parts

variable {kinds : List NodeKind} {handler : Handler σ} {other : Handler τ}

def Handler.Views (view : σ → τ) (handler : Handler σ) (other : Handler τ) : Prop :=
  ∀ node parent state,
    other node parent (view state) = ((handler node parent state).1, view (handler node parent state).2)

theorem shows_handle (views : handler.Views view other) (node : Node) (parent : Option Node) :
    Shows view (Walk.handle kinds handler node parent) (Walk.handle kinds other node parent) := by
  intro state _
  simp only [Walk.handle, WalkState.view, views node parent]
  split
  · rcases handler node parent state.handler with ⟨_ | _, _⟩ <;> exact ⟨rfl, rfl⟩
  · exact ⟨rfl, rfl⟩

/-- A walk may leave out nodes below which nothing is asked for, and it may go deeper. -/
theorem shows_walkInto (views : handler.Views view other) (enters : Node → Bool)
    (spares : ∀ node, enters node = false → node.mayContain kinds = false) {depth deeper : Nat}
    (room : depth ≤ deeper) (node : Node) (parent : Option Node) :
    Shows view (walkInto enters kinds handler deeper node parent) (walkWhole kinds other depth node parent) := by
  induction depth generalizing deeper node parent with
  | zero => exact fun state deep => absurd rfl deep
  | succ depth ih =>
    obtain _ | deeper := deeper
    · exact absurd room (Nat.not_succ_le_zero depth)
    have further := fun node parent => ih (Nat.le_of_succ_le_succ room) node parent
    refine (shows_handle views node parent).andThen fun replaced => ?_
    cases entered : enters replaced with
    | true => exact shows_below further replaced
    | false =>
      -- the other walk goes on, but does nothing there
      intro state ends
      have idle := idle_below_of_pruned other (spares replaced entered) depth (state.view view)
      have same := idle.resolve_left ends
      exact ⟨congrArg Prod.fst same.symm, congrArg Prod.snd same.symm⟩

theorem Handler.views_self (handler : Handler σ) : handler.Views id handler := fun _ _ _ => rfl

theorem Handler.views_recorded (handler : Handler σ) : handler.recorded.Views Prod.fst handler := fun _ _ _ => rfl

/-- Once a walk into every node ends, every walk that has as much room and leaves out no node that matters has its
outcome. -/
theorem outcome_walkInto (enters : Node → Bool)
    (spares : ∀ node, enters node = false → node.mayContain kinds = false) {depth deeper : Nat}
    (room : depth ≤ deeper) {tree : Node} {outer : Option Node} {state : σ}
    (ends : (visitWhole depth kinds handler tree outer state).1 ≠ .error .tooDeep) :
    let walked := walkInto enters kinds handler deeper tree outer { handler := state }
    (walked.1, walked.2.handler) = visitWhole depth kinds handler tree outer state := by
  obtain ⟨same, sameState⟩ :=
    shows_walkInto handler.views_self enters spares room tree outer { handler := state } ends
  exact Prod.ext same (congrArg WalkState.handler sameState)

end Shown

/-- Leaving nodes out changes nothing. If a walk into every node of a tree ends, with some depth to go, then with
any greater depth the walk that leaves out the nodes below which nothing can be asked for has the same outcome and
leaves the handler in the same state, and it asks the handler about the same nodes with the same parents in the same
order; for any handler, whatever it gives for a node. -/
theorem visit_eq_visitWhole {σ : Type} (kinds : List NodeKind) (handler : Handler σ) (tree : Node)
    (outer : Option Node) (state : σ) {depth deeper : Nat} (room : depth ≤ deeper)
    (ends : (visitWhole depth kinds handler tree outer state).1 ≠ .error .tooDeep) :
    visitWhole deeper kinds handler tree outer state = visitWhole depth kinds handler tree outer state ∧
      visit deeper kinds handler tree outer state = visitWhole depth kinds handler tree outer state ∧
      visit deeper kinds handler.recorded tree outer (state, []) =
        visitWhole depth kinds handler.recorded tree outer (state, []) := by
  -- noting down what is asked does not keep the walk from ending
  have noted := shows_walkInto handler.views_recorded (fun _ => true) nofun (Nat.le_refl depth) tree outer
    { handler := (state, []) } ends
  have recordedEnds : (visitWhole depth kinds handler.recorded tree outer (state, [])).1 ≠ .error .tooDeep :=
    noted.left ▸ ends
  refine ⟨outcome_walkInto (fun _ => true) nofun room ends, ?_, ?_⟩
  · rw [visit, walk_eq_walkInto]
    exact outcome_walkInto (Node.mayContain kinds) (fun _ => id) room ends
  · rw [visit, walk_eq_walkInto]
    exact outcome_walkInto (Node.mayContain kinds) (fun _ => id) room recordedEnds

/-- A declaration is put into a block of its own, where it is met again and becomes a call. The number in it is left
out. -/
theorem visit_eq_visitWhole_wrapped :
    let line := Stmt.declare "x" .int32 (some (.int 1 none))
    let tree := fun line => Node.program ⟨[], [.function { name := "main", returns := .void, body := [line] }]⟩
    let handler : Handler Nat := fun node _ calls =>
      match calls, node with
      | 0, .stmt line => (.ok (.stmt (.block [line])), 1)
      | calls, _ => (.ok (.expr (.call (.var "f" none) [] none)), calls + 1)
    (visitWhole 6 [.declare] handler (tree line) none 0).1 ≠ .error .tooDeep ∧
      visit 7 [.declare] handler (tree line) none 0 =
        (.ok (tree (.block [.call (.var "f" none) [] none])), 2) ∧
      (visit 7 [.declare] handler.recorded (tree line) none (0, [])).2.2 =
        [(.stmt line, some (.stmt (.block [line]))), (.stmt line, some (.stmt (.block [line])))] := by
  intro line tree handler
  have ends : (visitWhole 6 [.declare] handler (tree line) none 0).1 ≠ .error .tooDeep := nofun
  obtain ⟨_, same, asked⟩ := visit_eq_visitWhole [.declare] handler (tree line) none 0 (by decide : 6 ≤ 7) ends
  exact ⟨ends, same, by rw [asked]; rfl⟩

end TypedTree
