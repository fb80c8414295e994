import TypedTree.Proofs.Tree.Refill
/-! How far a handler gets. It is asked at the stops of a walk one after another, each time with what stands by
then at the stop of the parent, until it fails or no stop is left. -/

namespace TypedTree

section Following

variable {σ : Type}

/-- Every node that the handler gives for another one differs from it in fields only. -/
def Handler.Faithful (handler : Handler σ) : Prop :=
  ∀ node parent state replaced later, handler node parent state = (.ok replaced, later) → replaced.Keeps node

def Handler.reply (kinds : List NodeKind) (handler : Handler σ) (node : Node) (parent : Option Node) (state : σ) :
    Except Error Node × σ :=
  if kinds.contains node.kind then handler node parent state else (.ok node, state)

/-- How far a handler gets at stops one after another: what became of their nodes, the state it is left in, and
its first failure. -/
structure Handler.Run (σ : Type) where
  answers : List Node
  state : σ
  failure : Option Error

/-- What stands at the stop of a parent. Above a stop without one is what the walk has been given. -/
def parentAt (outer : Option Node) (answers : List Node) : Option Nat → Option Node
  | none => outer
  | some index => answers[index]?

/-- Takes the stops one after another, each with what has become of the node at its parent, until the handler
fails. -/
def Handler.follow (kinds : List NodeKind) (handler : Handler σ) (outer : Option Node) :
    List Stop → (answers : List Node) → σ → Run σ
  | [], answers, state => ⟨answers, state, none⟩
  | stop :: stops, answers, state =>
    match handler.reply kinds stop.node (parentAt outer answers stop.parent) state with
    | (.ok node, later) => follow kinds handler outer stops (answers ++ [node]) later
    | (.error error, later) => ⟨answers, later, some error⟩

variable {kinds : List NodeKind} {handler : Handler σ} (outer : Option Node)

theorem Handler.Faithful.reply (faithful : handler.Faithful) {node replaced : Node} {parent : Option Node}
    {state later : σ} (given : handler.reply kinds node parent state = (.ok replaced, later)) :
    replaced.Keeps node := by
  unfold Handler.reply at given
  split at given
  · exact faithful _ _ _ _ _ given
  · cases given
    exact .refl node

theorem Walk.handle_eq (node : Node) (parent : Option Node) (state : WalkState σ) :
    handle kinds handler node parent state =
      match handler.reply kinds node parent state.handler with
      | (.ok replaced, later) => (.ok replaced, { state with handler := later })
      | (.error error, later) => (.error (.failed error), { state with handler := later }) := by
  unfold handle Handler.reply
  split <;> rfl

theorem Handler.follow_append (first second : List Stop) (answers : List Node) (state : σ) :
    handler.follow kinds outer (first ++ second) answers state =
      match (handler.follow kinds outer first answers state).failure with
      | some _ => handler.follow kinds outer first answers state
      | none => handler.follow kinds outer second (handler.follow kinds outer first answers state).answers
          (handler.follow kinds outer first answers state).state := by
  induction first generalizing answers state with
  | nil => rfl
  | cons stop first ih =>
    simp only [List.cons_append, follow]
    split
    · exact ih _ _
    · rfl

theorem Handler.follow_free {stops : List Stop}
    (free : ∀ stop ∈ stops, kinds.contains stop.node.kind = false) (answers : List Node) (state : σ) :
    handler.follow kinds outer stops answers state = ⟨answers ++ stops.map Stop.node, state, none⟩ := by
  induction stops generalizing answers with
  | nil => simp [follow]
  | cons stop stops ih =>
    obtain ⟨first, rest⟩ := List.forall_mem_cons.mp free
    simp only [follow, reply, first, Bool.false_eq_true, if_false, ih rest, List.map_cons, List.append_assoc,
      List.singleton_append]

end Following

section Asked

variable {σ : Type} {handler : Handler σ} (kinds : List NodeKind) (outer : Option Node)

/-- The handler, which also notes down what it is asked. -/
def Handler.recorded (handler : Handler σ) : Handler (σ × List (Node × Option Node)) := fun node parent state =>
  let answer := handler node parent state.1
  (answer.1, answer.2, state.2 ++ [(node, parent)])

theorem Handler.Faithful.recorded (faithful : handler.Faithful) : handler.recorded.Faithful := by
  intro node parent state replaced later given
  exact faithful node parent state.1 replaced later.1 (congrArg (fun answer => (answer.1, answer.2.1)) given)

/-- The nodes that a handler is asked about at stops, each with what stands at the stop of its parent. -/
def asked (kinds : List NodeKind) (outer : Option Node) (stops : List Stop) (answers : List Node) :
    List (Node × Option Node) :=
  (stops.filter fun stop => kinds.contains stop.node.kind).map fun stop =>
    (stop.node, parentAt outer answers stop.parent)

theorem Handler.answers_follow (stops : List Stop) (answers : List Node) (state : σ) :
    ∃ found, (handler.follow kinds outer stops answers state).answers = answers ++ found := by
  induction stops generalizing answers state with
  | nil => exact ⟨[], (List.append_nil _).symm⟩
  | cons stop stops ih =>
    rw [follow]
    split
    next node later _ =>
      obtain ⟨found, same⟩ := ih (answers ++ [node]) later
      exact ⟨node :: found, by rw [same, List.append_assoc, List.singleton_append]⟩
    · exact ⟨[], (List.append_nil _).symm⟩

theorem parentAt_append {answers : List Node} {parent : Option Nat}
    (before : ∀ index ∈ parent, index < answers.length) (more : List Node) :
    parentAt outer (answers ++ more) parent = parentAt outer answers parent := by
  cases parent with
  | none => rfl
  | some index => exact List.getElem?_append_left (before index rfl)

theorem asked_cons (stop : Stop) (stops : List Stop) (answers : List Node) :
    asked kinds outer (stop :: stops) answers =
      (if kinds.contains stop.node.kind then [(stop.node, parentAt outer answers stop.parent)] else []) ++
        asked kinds outer stops answers := by
  simp only [asked, List.filter_cons]
  split <;> rfl

/-- A handler is asked at the stops of its kinds one after another, up to the one where it fails. -/
theorem Handler.follow_recorded {stops : List Stop} {answers : List Node} (earlier : Earlier answers.length stops)
    (state : σ) (log : List (Node × Option Node)) :
    let run := handler.follow kinds outer stops answers state
    let passed := stops.take (run.answers.length - answers.length + 1)
    handler.recorded.follow kinds outer stops answers (state, log) =
      ⟨run.answers, (run.state, log ++ asked kinds outer passed run.answers), run.failure⟩ := by
  induction stops generalizing answers state log with
  | nil => simp [follow, asked]
  | cons stop stops ih =>
    obtain ⟨before, later⟩ := earlier
    have passing (node : Node) (after : σ) (log : List (Node × Option Node)) :
        let run := handler.follow kinds outer stops (answers ++ [node]) after
        let own := if kinds.contains stop.node.kind then [(stop.node, parentAt outer answers stop.parent)] else []
        handler.recorded.follow kinds outer stops (answers ++ [node]) (after, log ++ own) =
          ⟨run.answers, (run.state, log ++ asked kinds outer
            ((stop :: stops).take (run.answers.length - answers.length + 1)) run.answers), run.failure⟩ := by
      intro run own
      obtain ⟨found, same⟩ := handler.answers_follow kinds outer stops (answers ++ [node]) after
      have rest := ih (by simpa using later : Earlier (answers ++ [node]).length stops) after (log ++ own)
      have total : run.answers = answers ++ ([node] ++ found) := by rw [← List.append_assoc]; exact same
      -- the parent stands at an earlier stop, so that later answers leave it as it is
      have stays : parentAt outer run.answers stop.parent = parentAt outer answers stop.parent := by
        rw [total, parentAt_append outer before]
      have count : run.answers.length - answers.length = run.answers.length - (answers ++ [node]).length + 1 := by
        simp only [total, List.length_append, List.length_singleton]
        omega
      rw [rest, count, List.take_succ_cons, asked_cons, stays, List.append_assoc]
    cases contains : kinds.contains stop.node.kind with
    | false =>
      have ran := passing stop.node state log
      simp only [contains, Bool.false_eq_true, if_false, List.append_nil] at ran
      simp only [follow, reply, contains, Bool.false_eq_true, if_false]
      exact ran
    | true =>
      rcases given : handler stop.node (parentAt outer answers stop.parent) state with ⟨answer, after⟩
      cases answer with
      | ok node =>
        have ran := passing node after log
        simp only [contains, if_true] at ran
        simp only [follow, reply, contains, if_true, recorded, given]
        exact ran
      | error error =>
        simp only [follow, reply, contains, if_true, recorded, given, Nat.sub_self, List.take_succ_cons,
          List.take_zero, asked_cons]
        rfl

theorem Handler.follow_unchanged (unchanged : ∀ node parent state, (handler node parent state).1 = .ok node)
    (stops : List Stop) (answers : List Node) (state : σ) :
    (handler.follow kinds outer stops answers state).answers = answers ++ stops.map Stop.node ∧
      (handler.follow kinds outer stops answers state).failure = none := by
  induction stops generalizing answers state with
  | nil => simp [follow]
  | cons stop stops ih =>
    have kept : (handler.reply kinds stop.node (parentAt outer answers stop.parent) state).1 = .ok stop.node := by
      rw [reply]
      split
      · exact unchanged _ _ _
      · rfl
    rw [follow]
    split
    next node later given =>
      rw [given] at kept
      cases kept
      obtain ⟨same, went⟩ := ih (answers ++ [stop.node]) later
      exact ⟨by rw [same, List.append_assoc, List.map_cons, List.singleton_append], went⟩
    next error later given =>
      rw [given] at kept
      cases kept

end Asked

end TypedTree
