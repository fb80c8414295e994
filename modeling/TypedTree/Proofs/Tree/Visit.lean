import TypedTree.Proofs.Tree.Following
/-! What a walk makes of a tree. Every node of the result has the fields that the handler has given it, and the
same imports share a program as before. The table of a walk has what has become of the programs it has gone into,
with all programs inside them, so that nothing that is put into a result can change later. -/

namespace TypedTree

section Tables

/-- Every shared program of a list is in the table, under its identity. -/
def Holds (table : Table Nat Program) (modules : List Module) : Prop :=
  ∀ shared ∈ modules, table.find? shared.id = some shared.program

def Grows (table later : Table Nat Program) : Prop :=
  ∀ id program, table.find? id = some program → later.find? id = some program

/-- The table has what has become of the programs that have been met, and of the programs in them. -/
structure Memo (modules : List Module) (met : List Nat) (table : Table Nat Program) : Prop where
  known : ∀ shared ∈ modules, (table.find? shared.id).isSome = true ↔ shared.id ∈ met
  closed : ∀ id program, table.find? id = some program → Holds table program.modules

def Original (modules : List Module) (table : Table Nat Program) : Prop :=
  ∀ shared ∈ modules, ∀ program, table.find? shared.id = some program → program = shared.program

variable {table later last : Table Nat Program} {modules : List Module}

theorem Grows.refl (table : Table Nat Program) : Grows table table := fun _ _ found => found

theorem Grows.trans (first : Grows table later) (second : Grows later last) : Grows table last :=
  fun id program found => second id program (first id program found)

theorem Holds.grows {held : List Module} (holds : Holds table held) (grows : Grows table later) :
    Holds later held :=
  fun shared member => grows shared.id shared.program (holds shared member)

theorem Grows.insert {id : Nat} (fresh : table.find? id = none) (program : Program) :
    Grows table (table.insert id program) := by
  intro other found same
  rw [Table.find?_insert]
  split
  next equal => rw [equal, fresh] at same; cases same
  next => exact same

theorem Memo.insert {met : List Nat} (memo : Memo modules met table) {id : Nat} (fresh : table.find? id = none)
    {program : Program} (holds : Holds table program.modules) :
    Memo modules (id :: met) (table.insert id program) := by
  refine ⟨fun shared member => ?_, fun other found same => ?_⟩
  · rw [Table.find?_insert, List.mem_cons, ← memo.known shared member]
    by_cases equal : shared.id = id <;> simp [equal]
  · rw [Table.find?_insert] at same
    split at same
    · cases same
      exact holds.grows (.insert fresh program)
    · exact (memo.closed other found same).grows (.insert fresh program)

theorem Holds.coherent {held : List Module} (holds : Holds table held) : Coherent held := by
  rintro ⟨id, program⟩ leftIn ⟨_, other⟩ rightIn same
  cases same
  cases (holds _ leftIn).symm.trans (holds ⟨id, other⟩ rightIn)
  rfl

end Tables

section Refilling

/-- What a walk leaves as it is at a stop: whose part it is, its kind, and which program is shared there. -/
def Stop.shape (stop : Stop) : Option Nat × NodeKind × Option Nat :=
  (stop.parent, stop.node.kind, stop.node.shared?.map Module.id)

/-- Nodes stand for others: they have stops of the same shape, and at the stops the fields of given nodes. -/
structure Refilled (nodes results : List Node) (parent : Option Nat) (start : Nat) (met : List Nat)
    (found : List Node) : Prop where
  alike : List.Forall₂ Node.Alike results nodes
  walked : (nodesStops results parent start met).2 = (nodesStops nodes parent start met).2
  shape : (nodesStops results parent start met).1.map Stop.shape =
    (nodesStops nodes parent start met).1.map Stop.shape
  filled : List.Forall₂ Node.Fills ((nodesStops results parent start met).1.map Stop.node) found

variable {nodes results found : List Node} {node result replaced : Node} {parent : Option Nat} {start : Nat}
  {met : List Nat}

theorem Refilled.length (refilled : Refilled nodes results parent start met found) :
    (nodesStops results parent start met).1.length = (nodesStops nodes parent start met).1.length := by
  simpa using congrArg List.length refilled.shape

theorem Refilled.length_found (refilled : Refilled nodes results parent start met found) :
    found.length = (nodesStops nodes parent start met).1.length := by
  rw [← refilled.length, ← refilled.filled.length_eq, List.length_map]

theorem Refilled.nil (parent : Option Nat) (start : Nat) (met : List Nat) :
    Refilled [] [] parent start met [] := by
  refine ⟨.nil, rfl, rfl, ?_⟩
  rw [nodesStops_nil]
  exact .nil

theorem Refilled.self (nodes : List Node) (parent : Option Nat) (start : Nat) (met : List Nat) :
    Refilled nodes nodes parent start met ((nodesStops nodes parent start met).1.map Stop.node) :=
  ⟨List.forall₂_same.mpr fun node _ => .refl node, rfl, rfl,
    List.forall₂_same.mpr fun node _ => Node.fills_self node⟩

theorem Refilled.cons {rest : List Node} (first : Refilled [node] [result] parent start met found)
    (others : Refilled nodes results parent (start + (nodesStops [node] parent start met).1.length)
      (nodesStops [node] parent start met).2 rest) :
    Refilled (node :: nodes) (result :: results) parent start met (found ++ rest) := by
  have length := first.length
  have walked := first.walked
  have shape := first.shape
  have filled := first.filled
  simp only [nodesStops_singleton] at length walked shape filled others
  refine ⟨.cons (List.forall₂_cons.mp first.alike).left others.alike, ?_, ?_, ?_⟩
  · simp only [nodesStops_cons, length, walked, others.walked]
  · simp only [nodesStops_cons, length, walked, List.map_append, shape, others.shape]
  · simp only [nodesStops_cons, length, walked, List.map_append]
    exact List.rel_append filled others.filled

theorem Refilled.parts (plain : node.shared? = none) (alike : result.Alike node)
    (shared : result.shared? = node.shared?) (fills : result.Fills replaced)
    (refilled : Refilled node.children result.children (some start) (start + 1) met found) :
    Refilled [node] [result] parent start met (replaced :: found) := by
  have resultPlain := shared.trans plain
  refine ⟨.cons alike .nil, ?_, ?_, ?_⟩
  · simp only [nodesStops_singleton, Node.stops_parts _ _ plain, Node.stops_parts _ _ resultPlain, refilled.walked]
  · simp only [nodesStops_singleton, Node.stops_parts _ _ plain, Node.stops_parts _ _ resultPlain, List.map_cons,
      refilled.shape, Stop.shape, alike.kind, shared]
  · simp only [nodesStops_singleton, Node.stops_parts _ _ resultPlain, List.map_cons]
    exact .cons fills refilled.filled

variable {shared : Module} {entry : Import} {program : Program}

theorem Refilled.known (target : node.shared? = some shared) (target' : result.shared? = some ⟨shared.id, program⟩)
    (alike : result.Alike node) (fills : result.Fills replaced) (known : shared.id ∈ met) :
    Refilled [node] [result] parent start met [replaced] := by
  refine ⟨.cons alike .nil, ?_, ?_, ?_⟩
  · simp only [nodesStops_singleton, Node.stops_known _ _ target known, Node.stops_known _ _ target' known]
  · simp [nodesStops_singleton, Node.stops_known _ _ target known, Node.stops_known _ _ target' known, Stop.shape,
      alike.kind, target, target']
  · simp only [nodesStops_singleton, Node.stops_known _ _ target' known]
    exact .cons fills .nil

theorem Refilled.first (target : node.shared? = some shared) (target' : result.shared? = some ⟨shared.id, program⟩)
    (alike : result.Alike node) (fills : result.Fills replaced) (first : shared.id ∉ met)
    (refilled : Refilled [.program shared.program] [.program program] (some start) (start + 1) met found) :
    Refilled [node] [result] parent start met (replaced :: found) := by
  have walked := refilled.walked
  have shape := refilled.shape
  have filled := refilled.filled
  simp only [nodesStops_singleton] at walked shape filled
  refine ⟨.cons alike .nil, ?_, ?_, ?_⟩
  · simp only [nodesStops_singleton, Node.stops_first _ _ target first, Node.stops_first _ _ target' first, walked]
  · simp only [nodesStops_singleton, Node.stops_first _ _ target first, Node.stops_first _ _ target' first,
      List.map_cons, shape, Stop.shape, alike.kind, target, target', Option.map_some]
  · simp only [nodesStops_singleton, Node.stops_first _ _ target' first]
    exact .cons fills filled

end Refilling

section Walks

variable {σ α : Type} (kinds : List NodeKind) (handler : Handler σ) (outer : Option Node) (modules : List Module)

structure Leaves (nodes results : List Node) (parent : Option Nat) (met : List Nat) (answers found : List Node)
    (table later : Table Nat Program) : Prop where
  refilled : Refilled nodes results parent answers.length met found
  memo : Memo modules (nodesStops nodes parent answers.length met).2 later
  grows : Grows table later
  holds : Holds later (results.flatMap Node.modules)
  same : found = (nodesStops nodes parent answers.length met).1.map Stop.node → Original modules table →
    results = nodes ∧ Original modules later

/-- A step of a walk takes the stops of nodes one after another, with the answers so far, and makes nodes of the
answers; or it ends where the handler fails. -/
def Follows (step : Walk σ α) (view : α → List Node) (nodes : List Node) (parent : Option Nat)
    (parentNode : Option Node) : Prop :=
  ∀ met answers state table, Memo modules met table →
    (∀ more, parentAt outer (answers ++ more) parent = parentNode) →
    let run := handler.follow kinds outer (nodesStops nodes parent answers.length met).1 answers state
    match run.failure with
    | some error => ∃ left, step ⟨state, table⟩ = (.error (.failed error), ⟨run.state, left⟩)
    | none => ∃ value later found, step ⟨state, table⟩ = (.ok value, ⟨run.state, later⟩) ∧
      run.answers = answers ++ found ∧ Leaves modules nodes (view value) parent met answers found table later

variable {kinds handler outer modules} {parent : Option Nat} {parentNode : Option Node}

theorem Leaves.cons {node result : Node} {nodes results answers found rest : List Node} {met : List Nat}
    {table between later : Table Nat Program}
    (first : Leaves modules [node] [result] parent met answers found table between)
    (others : Leaves modules nodes results parent (nodesStops [node] parent answers.length met).2 (answers ++ found)
      rest between later) :
    Leaves modules (node :: nodes) (result :: results) parent met answers (found ++ rest) table later := by
  have length := first.refilled.length_found
  have start : (answers ++ found).length =
      answers.length + (nodesStops [node] parent answers.length met).1.length := by
    rw [List.length_append, length]
  have refilled := others.refilled
  have memo := others.memo
  have same := others.same
  rw [start] at refilled memo same
  simp only [nodesStops_singleton] at memo same length
  refine ⟨first.refilled.cons refilled, ?_, first.grows.trans others.grows, ?_, fun unchanged original => ?_⟩
  · rw [nodesStops_cons]
    exact memo
  · have held := first.holds.grows others.grows
    rw [List.flatMap_singleton] at held
    exact List.forall_mem_append.mpr ⟨held, others.holds⟩
  · rw [nodesStops_cons, List.map_append] at unchanged
    obtain ⟨ahead, behind⟩ := List.append_inj unchanged (by rw [length, List.length_map])
    have before := first.same
    rw [nodesStops_singleton] at before
    obtain ⟨firstSame, originalBetween⟩ := before ahead original
    cases firstSame
    obtain ⟨rfl, originalLater⟩ := same behind originalBetween
    exact ⟨rfl, originalLater⟩

theorem follows_all {step : Node → Walk σ Node} (nodes : List Node)
    (each : ∀ node ∈ nodes, Follows kinds handler outer modules (step node) (fun result => [result]) [node] parent
      parentNode) :
    Follows kinds handler outer modules (Walk.all step nodes) (fun results => results) nodes parent parentNode := by
  induction nodes with
  | nil =>
    intro met answers state table memo stable
    simp only [nodesStops_nil, Handler.follow]
    refine ⟨[], table, [], rfl, (List.append_nil _).symm, .nil _ _ _, ?_, .refl table, List.forall_mem_nil _,
      fun _ original => ⟨rfl, original⟩⟩
    rwa [nodesStops_nil]
  | cons node nodes ih =>
    obtain ⟨first, rest⟩ := List.forall_mem_cons.mp each
    intro met answers state table memo stable
    have ran := first met answers state table memo stable
    simp only [nodesStops_singleton] at ran
    simp only [nodesStops_cons, Handler.follow_append, Walk.all, Walk.andThen]
    generalize handler.follow kinds outer (node.stops parent answers.length met).1 answers state = begun at ran ⊢
    obtain ⟨answered, between, failure⟩ := begun
    cases failure with
    | some error =>
      obtain ⟨left, failed⟩ := ran
      exact ⟨left, by rw [failed]⟩
    | none =>
      obtain ⟨result, held, found, went, rfl, leaves⟩ := ran
      have length := leaves.refilled.length_found
      have memoBetween := leaves.memo
      have further := ih rest _ (answers ++ found) between held memoBetween
        fun more => by rw [List.append_assoc]; exact stable _
      rw [List.length_append, length] at further
      simp only [nodesStops_singleton] at further
      simp only [went]
      generalize handler.follow kinds outer (nodesStops nodes parent _ _).1 (answers ++ found) between = ended
        at further ⊢
      obtain ⟨answered, after, failure⟩ := ended
      cases failure with
      | some error =>
        obtain ⟨left, failed⟩ := further
        exact ⟨left, by rw [failed]⟩
      | none =>
        obtain ⟨results, later, others, wentOn, rfl, leavesOthers⟩ := further
        refine ⟨result :: results, later, found ++ others, by rw [wentOn], List.append_assoc _ _ _, ?_⟩
        rw [← nodesStops_singleton] at leavesOthers
        exact leaves.cons leavesOthers

section Steps

variable {node replaced : Node} {state later : σ} (table : Table Nat Program) (depth : Nat)

theorem walk_of_failed {error : Error}
    (given : handler.reply kinds node parentNode state = (.error error, later)) :
    walk kinds handler (depth + 1) node parentNode ⟨state, table⟩ = (.error (.failed error), ⟨later, table⟩) := by
  rw [walk, Walk.andThen, Walk.handle_eq, given]

theorem walk_of_pruned (given : handler.reply kinds node parentNode state = (.ok replaced, later))
    (pruned : replaced.mayContain kinds = false) :
    walk kinds handler (depth + 1) node parentNode ⟨state, table⟩ = (.ok replaced, ⟨later, table⟩) := by
  rw [walk, Walk.andThen, Walk.handle_eq, given]
  simp only [pruned, Bool.not_false, if_true, Walk.ofExcept]

theorem walk_of_parts (given : handler.reply kinds node parentNode state = (.ok replaced, later))
    (contains : replaced.mayContain kinds = true) (plain : replaced.shared? = none) :
    walk kinds handler (depth + 1) node parentNode ⟨state, table⟩ =
      ((Walk.all (fun child => walk kinds handler depth child (some replaced)) replaced.children).andThen
        fun children => Walk.ofExcept (replaced.withChildren children)) ⟨later, table⟩ := by
  rw [walk, Walk.andThen, Walk.handle_eq, given]
  simp only [contains, Bool.not_true, Bool.false_eq_true, if_false]
  cases replaced with
  | importEntry entry =>
    obtain ⟨path, target⟩ := entry
    cases plain
    rfl
  | _ => rfl

theorem walk_of_shared {path : String} {shared : Module}
    (given : handler.reply kinds node parentNode state = (.ok (.importEntry ⟨path, some shared⟩), later)) :
    walk kinds handler (depth + 1) node parentNode ⟨state, table⟩ =
      match table.find? shared.id with
      | some walked => (.ok (.importEntry ⟨path, some ⟨shared.id, walked⟩⟩), ⟨later, table⟩)
      | none =>
        ((walk kinds handler depth (.program shared.program) (some (.importEntry ⟨path, some shared⟩))).andThen
          fun walked => (Walk.ofExcept walked.toProgram).andThen fun program => fun state =>
            (.ok (.importEntry ⟨path, some ⟨shared.id, program⟩⟩),
              { state with shared := state.shared.insert shared.id program })) ⟨later, table⟩ := by
  rw [walk, Walk.andThen, Walk.handle_eq, given]
  rfl

end Steps

section Cases

variable {node replaced : Node} {state later : σ} {met : List Nat} {answers : List Node}
  {table : Table Nat Program}

theorem follow_of_failed {error : Error}
    (given : handler.reply kinds node parentNode state = (.error error, later))
    (known : parentAt outer answers parent = parentNode) (start : Nat) (met : List Nat) :
    handler.follow kinds outer (node.stops parent start met).1 answers state = ⟨answers, later, some error⟩ := by
  obtain ⟨inside, same⟩ := node.stops_head parent start met
  rw [same]
  simp only [Handler.follow, known, given]

theorem leaves_of_pruned (keeps : replaced.Keeps node) (target : node.shared? = none)
    (pruned : replaced.mayContain kinds = false) (memo : Memo modules met table) :
    Leaves modules [node] [replaced] parent met answers
      (replaced :: (nodesStops node.children (some answers.length) (answers.length + 1) met).1.map Stop.node)
      table table := by
  have inside := Refilled.self node.children (some answers.length) (answers.length + 1) met
  have free := replaced.free_nodesStops pruned (some answers.length) (answers.length + 1) met
  rw [keeps.children] at free
  refine ⟨.parts target keeps.alike keeps.shared replaced.fills_self ?_, ?_, .refl table, ?_, ?_⟩
  · rwa [keeps.children]
  · rw [nodesStops_singleton, Node.stops_parts _ _ target, free.left]
    exact memo
  · rw [List.flatMap_singleton, Node.modules_of_pruned pruned]
    exact nofun
  · intro unchanged original
    rw [nodesStops_singleton, Node.stops_parts _ _ target] at unchanged
    obtain ⟨rfl, _⟩ := List.cons.inj unchanged
    exact ⟨rfl, original⟩

theorem leaves_of_parts {result : Node} {found : List Node} {after : Table Nat Program}
    (keeps : replaced.Keeps node) (target : node.shared? = none) (alike : result.Alike replaced)
    (shared : result.shared? = replaced.shared?) (fills : result.Fills replaced)
    (put : replaced.withChildren result.children = .ok result)
    (inside : Leaves modules node.children result.children (some answers.length) met (answers ++ [replaced]) found
      table after) :
    Leaves modules [node] [result] parent met answers (replaced :: found) table after := by
  have refilled := inside.refilled
  have memo := inside.memo
  have same := inside.same
  simp only [List.length_append, List.length_singleton] at refilled memo same
  refine ⟨.parts target (alike.trans keeps.alike) (shared.trans keeps.shared) fills refilled, ?_, inside.grows,
    ?_, ?_⟩
  · rw [nodesStops_singleton, Node.stops_parts _ _ target]
    exact memo
  · rw [List.flatMap_singleton, Node.modules_of_parts (shared.trans (keeps.shared.trans target))]
    exact inside.holds
  · intro unchanged original
    rw [nodesStops_singleton, Node.stops_parts _ _ target] at unchanged
    obtain ⟨rfl, below⟩ := List.cons.inj unchanged
    obtain ⟨children, originalAfter⟩ := same below original
    rw [children, Node.withChildren_children] at put
    exact ⟨congrArg (fun node => [node]) (Except.ok.inj put).symm, originalAfter⟩

variable {shared : Module} {path : String}

theorem leaves_of_known {walked : Program} (keeps : (Node.importEntry ⟨path, some shared⟩).Keeps node)
    (target : node.shared? = some shared) (memo : Memo modules met table) (known : shared.id ∈ met)
    (member : shared ∈ modules) (found : table.find? shared.id = some walked) :
    Leaves modules [node] [.importEntry ⟨path, some ⟨shared.id, walked⟩⟩] parent met answers
      [.importEntry ⟨path, some shared⟩] table table := by
  refine ⟨.known target rfl (.trans (.importEntry _ _) keeps.alike) ⟨rfl, rfl⟩ known, ?_, .refl table, ?_, ?_⟩
  · rw [nodesStops_singleton, Node.stops_known _ _ target known]
    exact memo
  · rw [List.flatMap_singleton, Node.modules_of_shared rfl]
    exact List.forall_mem_cons.mpr ⟨found, memo.closed _ _ found⟩
  · intro unchanged original
    rw [nodesStops_singleton, Node.stops_known _ _ target known] at unchanged
    obtain ⟨rfl, _⟩ := List.cons.inj unchanged
    rw [original shared member walked found]
    cases shared
    exact ⟨rfl, original⟩

theorem leaves_of_first {program : Program} {found : List Node} {after : Table Nat Program}
    (coherent : Coherent modules) (keeps : (Node.importEntry ⟨path, some shared⟩).Keeps node)
    (target : node.shared? = some shared) (first : shared.id ∉ met) (member : shared ∈ modules)
    (below : shared.program.modules ⊆ modules)
    (inside : Leaves modules [.program shared.program] [.program program] (some answers.length) met
      (answers ++ [.importEntry ⟨path, some shared⟩]) found table after) :
    Leaves modules [node] [.importEntry ⟨path, some ⟨shared.id, program⟩⟩] parent met answers
      (.importEntry ⟨path, some shared⟩ :: found) table (after.insert shared.id program) := by
  have refilled := inside.refilled
  have memo := inside.memo
  have same := inside.same
  simp only [List.length_append, List.length_singleton] at refilled memo same
  rw [nodesStops_singleton] at memo same
  have fresh : after.find? shared.id = none := by
    have unmet := Node.not_mem_met_stops coherent member below (some answers.length) (answers.length + 1) first
    rw [← memo.known shared member, Option.isSome_iff_ne_none, not_not] at unmet
    exact unmet
  have holds : Holds after program.modules := by simpa [Node.modules] using inside.holds
  have grows := Grows.insert fresh program
  refine ⟨.first target rfl (.trans (.importEntry _ _) keeps.alike) ⟨rfl, rfl⟩ first refilled, ?_,
    inside.grows.trans grows, ?_, ?_⟩
  · rw [nodesStops_singleton, Node.stops_first _ _ target first]
    exact memo.insert fresh holds
  · rw [List.flatMap_singleton, Node.modules_of_shared rfl]
    exact List.forall_mem_cons.mpr ⟨Table.find?_insert_self _ _ _, holds.grows grows⟩
  · intro unchanged original
    rw [nodesStops_singleton, Node.stops_first _ _ target first] at unchanged
    obtain ⟨rfl, deeper⟩ := List.cons.inj unchanged
    obtain ⟨programs, originalAfter⟩ := same deeper original
    cases programs
    refine ⟨by cases shared; rfl, fun other otherMember walked found => ?_⟩
    rw [Table.find?_insert] at found
    split at found
    next equal =>
      cases coherent other otherMember shared member equal
      exact (Option.some.inj found).symm
    next => exact originalAfter other otherMember walked found

end Cases

variable (kinds outer) in
/-- A walk that has room for a node follows the stops at the node and below it. -/
theorem follows_walk (faithful : handler.Faithful) (coherent : Coherent modules) (node : Node)
    (depth : Nat) (parent : Option Nat) (parentNode : Option Node) (room : sizeOf node ≤ depth)
    (inside : node.modules ⊆ modules) :
    Follows kinds handler outer modules (walk kinds handler depth node parentNode) (fun result => [result]) [node]
      parent parentNode := by
  induction node using Node.stopsInduction generalizing depth parent parentNode with
  | step node parts behind =>
    obtain _ | depth := depth
    · exact absurd node.sizeOf_pos (by omega)
    intro met answers state table memo stable
    have parentFound : parentAt outer answers parent = parentNode := by simpa using stable []
    have own (replaced : Node) (more : List Node) :
        parentAt outer (answers ++ [replaced] ++ more) (some answers.length) = some replaced := by
      simp [parentAt]
    simp only [nodesStops_singleton]
    rcases given : handler.reply kinds node parentNode state with ⟨reply, later⟩
    cases reply with
    | error error =>
      simp only [follow_of_failed given parentFound]
      exact ⟨table, walk_of_failed table depth given⟩
    | ok replaced =>
      have keeps := faithful.reply given
      cases target : node.shared? with
      | none =>
        have plain := keeps.shared.trans target
        simp only [Node.stops_parts _ _ target, Handler.follow, parentFound, given]
        -- the walk looks below the replaced node, which has the parts of the node that it replaces
        cases contains : replaced.mayContain kinds with
        | false =>
          have free := replaced.free_nodesStops contains (some answers.length) (answers.length + 1) met
          rw [keeps.children] at free
          rw [Handler.follow_free outer free.right]
          exact ⟨replaced, table, _, walk_of_pruned table depth given contains, List.append_assoc _ _ _,
            leaves_of_pruned keeps target contains memo⟩
        | true =>
          have each := follows_all node.children fun child member =>
            parts child member depth (some answers.length) (some replaced)
              (by have := Node.sizeOf_children member; omega)
              fun _ found => inside (Node.modules_children member found)
          have below := each met (answers ++ [replaced]) later table memo (own replaced)
          simp only [List.length_append, List.length_singleton] at below
          rw [walk_of_parts table depth given contains plain, keeps.children, Walk.andThen]
          generalize handler.follow kinds outer (nodesStops node.children _ _ met).1 _ later = run at below ⊢
          obtain ⟨answered, after, failure⟩ := run
          cases failure with
          | some error =>
            obtain ⟨left, failed⟩ := below
            exact ⟨left, by rw [failed]⟩
          | none =>
            obtain ⟨results, last, found, went, rfl, leaves⟩ := below
            obtain ⟨result, rfl, alike, shared, fills, put⟩ :=
              replaced.refill (keeps.children ▸ leaves.refilled.alike)
            refine ⟨result, last, replaced :: found, ?_, List.append_assoc _ _ _,
              leaves_of_parts keeps target alike shared fills put leaves⟩
            simp only [went, put, Walk.ofExcept]
      | some shared =>
        obtain ⟨path, rfl⟩ := Node.import_of_shared? (keeps.shared.trans target)
        have sharedInside : shared :: shared.program.modules ⊆ modules := Node.modules_of_shared target ▸ inside
        obtain ⟨member, below⟩ := List.cons_subset.mp sharedInside
        rw [walk_of_shared table depth given]
        -- the table knows exactly the programs that the stops so far have met
        by_cases known : shared.id ∈ met
        · obtain ⟨walked, found⟩ := Option.isSome_iff_exists.mp ((memo.known shared member).mpr known)
          simp only [Node.stops_known _ _ target known, Handler.follow, parentFound, given, found]
          exact ⟨_, table, _, rfl, rfl, leaves_of_known keeps target memo known member found⟩
        · have fresh : table.find? shared.id = none := by
            rw [← memo.known shared member, Option.isSome_iff_ne_none, not_not] at known
            exact known
          have ran := behind shared target depth (some answers.length) (some (.importEntry ⟨path, some shared⟩))
            (by have := Node.sizeOf_shared target; omega) below met (answers ++ [.importEntry ⟨path, some shared⟩])
            later table memo (own _)
          simp only [List.length_append, List.length_singleton, nodesStops_singleton] at ran
          simp only [Node.stops_first _ _ target known, Handler.follow, parentFound, given, fresh, Walk.andThen]
          generalize handler.follow kinds outer ((Node.program shared.program).stops _ _ met).1 _ later = run
            at ran ⊢
          obtain ⟨answered, after, failure⟩ := run
          cases failure with
          | some error =>
            obtain ⟨left, failed⟩ := ran
            exact ⟨left, by rw [failed]⟩
          | none =>
            obtain ⟨result, last, found, went, rfl, leaves⟩ := ran
            obtain ⟨program, rfl⟩ := Node.program_of_alike (List.forall₂_cons.mp leaves.refilled.alike).left
            refine ⟨_, _, _, ?_, List.append_assoc _ _ _,
              leaves_of_first coherent keeps target known member below leaves⟩
            simp only [went, Node.toProgram, Walk.ofExcept]

end Walks

section Visits

variable {σ : Type} {handler : Handler σ} {tree : Node} {depth : Nat}

theorem Memo.empty (modules : List Module) : Memo modules [] .empty :=
  ⟨fun _ _ => ⟨nofun, nofun⟩, nofun⟩

theorem visit_follows (faithful : handler.Faithful) (coherent : Coherent tree.modules) (room : sizeOf tree ≤ depth)
    (kinds : List NodeKind) (outer : Option Node) (state : σ) :
    let run := handler.follow kinds outer tree.allStops [] state
    (visit depth kinds handler tree outer state).2 = run.state ∧
    (∀ error, run.failure = some error → (visit depth kinds handler tree outer state).1 = .error (.failed error)) ∧
    (run.failure = none → ∃ result table, (visit depth kinds handler tree outer state).1 = .ok result ∧
      Leaves tree.modules [tree] [result] none [] [] run.answers .empty table) := by
  intro run
  have followed := follows_walk kinds outer faithful coherent tree depth none outer room
    (List.Subset.refl _) [] [] state .empty (.empty _) fun _ => rfl
  simp only [nodesStops_singleton] at followed
  have whole : run = handler.follow kinds outer (tree.stops none ([] : List Node).length []).1 [] state := rfl
  rw [← whole] at followed
  clear_value run
  obtain ⟨answers, after, failure⟩ := run
  cases failure with
  | some error =>
    obtain ⟨left, failed⟩ := followed
    refine ⟨by simp only [visit, failed], fun other same => ?_, nofun⟩
    cases same
    simp only [visit, failed]
  | none =>
    obtain ⟨result, table, found, went, rfl, leaves⟩ := followed
    refine ⟨by simp only [visit, went], nofun, fun _ => ⟨result, table, by simp only [visit, went], leaves⟩⟩

theorem Node.id_moduleAt (tree : Node) (index : Nat) :
    (tree.moduleAt index).map Module.id = (tree.allStops.map Stop.shape)[index]?.bind fun shape => shape.2.2 := by
  rw [moduleAt, List.getElem?_map, Option.map_bind, Option.bind_map]
  rfl

end Visits

/-- A handler that replaces nodes by nodes that differ in fields only is asked at the stops of its kinds, one after
another and each time with what has become of the parent, up to its first failure, which is the failure of the
walk; the stops go into every shared program exactly once. If there is no failure, the result has stops of the
same shape, each with the fields that the handler has given, and its imports share programs where those of the
tree do. A handler that gives every node back gives the tree back. -/
theorem visit_faithful {σ : Type} {handler : Handler σ} (faithful : handler.Faithful) {tree : Node}
    (coherent : Coherent tree.modules) {depth : Nat} (room : sizeOf tree ≤ depth) (kinds : List NodeKind)
    (outer : Option Node) (state : σ) :
    let run := handler.follow kinds outer tree.allStops [] state
    let passed := tree.allStops.take (run.answers.length + 1)
    let walked := visit depth kinds handler tree outer state
    (tree.walked.Nodup ∧ ∀ id, id ∈ tree.walked ↔ ∃ shared ∈ tree.modules, shared.id = id) ∧
    (visit depth kinds handler.recorded tree outer (state, [])).2 =
      (run.state, asked kinds outer passed run.answers) ∧
    walked.2 = run.state ∧
    (∀ error, run.failure = some error → walked.1 = .error (.failed error)) ∧
    (run.failure = none →
      ∃ result, walked.1 = .ok result ∧
        result.allStops.map Stop.shape = tree.allStops.map Stop.shape ∧
        List.Forall₂ Node.Fills (result.allStops.map Stop.node) run.answers ∧
        Coherent result.modules ∧
        ∀ first second, result.moduleAt first = result.moduleAt second ↔
          tree.moduleAt first = tree.moduleAt second) ∧
    ((∀ node parent state, (handler node parent state).1 = .ok node) → walked.1 = .ok tree) := by
  intro run passed walked
  obtain ⟨left, failed, went⟩ := visit_follows faithful coherent room kinds outer state
  refine ⟨Node.walked_distinct coherent, ?_, left, failed, fun passedBy => ?_, fun unchanged => ?_⟩
  · have earlier : Earlier ([] : List Node).length tree.allStops := tree.earlier_stops none 0 [] nofun
    have noted := handler.follow_recorded kinds outer earlier state []
    rw [(visit_follows faithful.recorded coherent room kinds outer (state, [])).left, noted, List.nil_append]
    rfl
  · obtain ⟨result, table, ran, leaves⟩ := went passedBy
    have shape := leaves.refilled.shape
    have filled := leaves.refilled.filled
    have holds := leaves.holds
    simp only [nodesStops_singleton] at shape filled
    rw [List.flatMap_singleton] at holds
    refine ⟨result, ran, shape, filled, holds.coherent, fun first second => ?_⟩
    have shapes : result.allStops.map Stop.shape = tree.allStops.map Stop.shape := shape
    simp only [Node.moduleAt_eq_iff holds.coherent, Node.moduleAt_eq_iff coherent, Node.id_moduleAt, shapes]
  · obtain ⟨answers, never⟩ := handler.follow_unchanged kinds outer unchanged tree.allStops [] state
    obtain ⟨result, table, ran, leaves⟩ := went never
    have same := leaves.same
    rw [nodesStops_singleton] at same
    obtain ⟨results, _⟩ := same answers nofun
    cases results
    exact ran

/-- An object that two imports share at different depths is renamed once, and both imports get it. -/
theorem visit_faithful_shared :
    let shapes := fun name => Program.mk [] [.object { exported := true, name }]
    let tools := fun name => Program.mk [⟨"shapes", some ⟨0, shapes name⟩⟩] []
    let tree := fun name => Node.program ⟨[⟨"tools", some ⟨1, tools name⟩⟩, ⟨"shapes", some ⟨0, shapes name⟩⟩], []⟩
    let handler : Handler Nat := fun node _ calls =>
      match node with
      | .decl (.object declaration) => (.ok (.decl (.object { declaration with name := "Figure" })), calls + 1)
      | other => (.ok other, calls + 1)
    let depth := sizeOf (tree "Shape")
    handler.Faithful ∧ Coherent (tree "Shape").modules ∧
      (visit depth [.object] handler.recorded (tree "Shape") none (0, [])).2 =
        (1, [(.decl (.object { exported := true, name := "Shape" }), some (.program (shapes "Shape")))]) ∧
      (visit depth [.object] handler (tree "Shape") none 0).1 = .ok (tree "Figure") ∧
      (tree "Figure").moduleAt 3 = (tree "Figure").moduleAt 6 := by
  intro shapes tools tree handler depth
  have faithful : handler.Faithful := by
    intro node parent state replaced later given
    simp only [handler] at given
    split at given
    · cases given
      exact ⟨.object _ _, rfl, rfl⟩
    · cases given
      exact .refl node
  have coherent : Coherent (tree "Shape").modules := by
    intro left leftIn right rightIn same
    simp only [tree, Node.modules, Program.modules, importsModules, Import.modules, targetModules, Module.modules,
      tools, shapes, List.append_nil, List.cons_append, List.nil_append, List.mem_cons, List.not_mem_nil,
      or_false] at leftIn rightIn
    rcases leftIn with rfl | rfl | rfl <;> rcases rightIn with rfl | rfl | rfl <;> first | rfl | cases same
  have stops : (tree "Shape").allStops =
      [⟨tree "Shape", none⟩, ⟨.importEntry ⟨"tools", some ⟨1, tools "Shape"⟩⟩, some 0⟩,
        ⟨.program (tools "Shape"), some 1⟩, ⟨.importEntry ⟨"shapes", some ⟨0, shapes "Shape"⟩⟩, some 2⟩,
        ⟨.program (shapes "Shape"), some 3⟩, ⟨.decl (.object { exported := true, name := "Shape" }), some 4⟩,
        ⟨.importEntry ⟨"shapes", some ⟨0, shapes "Shape"⟩⟩, some 0⟩] := by
    simp [Node.allStops, Node.stops, nodesStops, Node.children, Node.shared?, tree, shapes, tools]
  obtain ⟨_, asked, _, _, went, _⟩ := visit_faithful faithful coherent (Nat.le_refl depth) [.object] none 0
  simp only [stops] at asked went
  obtain ⟨result, ran, _, _, _, shares⟩ := went rfl
  have renamed : (visit depth [.object] handler (tree "Shape") none 0).1 = .ok (tree "Figure") := rfl
  obtain rfl : result = tree "Figure" := Except.ok.inj (ran.symm.trans renamed)
  refine ⟨faithful, coherent, asked.trans rfl, renamed, (shares 3 6).mpr ?_⟩
  simp only [Node.moduleAt, stops]
  rfl

end TypedTree
