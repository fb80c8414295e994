import TypedTree.Proofs.Check.Declared
/-! The stops of a walk. A walk over a tree stops at a node before its parts and at the parts from left to
right. Behind an import it goes on to the imported program, but only behind the first import that shares it. -/

namespace TypedTree

/-- A node where a walk stops, with the number of the stop at its parent. -/
structure Stop where
  node : Node
  parent : Option Nat

namespace Node

def shared? : Node → Option Module
  | importEntry entry => entry.target
  | _ => none

theorem sizeOf_shared {node : Node} {shared : Module} (target : node.shared? = some shared) :
    sizeOf (program shared.program) < sizeOf node := by
  match node with
  | importEntry ⟨path, some ⟨id, imported⟩⟩ =>
    cases target
    simp
    omega

end Node

noncomputable def heaviest (nodes : List Node) : Nat := nodes.foldr (fun node most => max (sizeOf node) most) 0

theorem Node.heaviest_children (node : Node) : heaviest node.children < sizeOf node := by
  have bound (nodes : List Node) (smaller : ∀ child ∈ nodes, sizeOf child < sizeOf node) :
      heaviest nodes < sizeOf node := by
    induction nodes with
    | nil => exact node.sizeOf_pos
    | cons child nodes ih =>
      obtain ⟨first, rest⟩ := List.forall_mem_cons.mp smaller
      exact Nat.max_lt.mpr ⟨first, ih rest⟩
  exact bound node.children fun _ => sizeOf_children

mutual

/-- The stops at a node and below it, numbered from `start`, and the identities of the programs that have been
walked by then. -/
def Node.stops (node : Node) (parent : Option Nat) (start : Nat) (met : List Nat) : List Stop × List Nat :=
  match _target : node.shared? with
  | none =>
    let inside := nodesStops node.children (some start) (start + 1) met
    (⟨node, parent⟩ :: inside.1, inside.2)
  | some shared =>
    if met.contains shared.id then ([⟨node, parent⟩], met)
    else
      let inside := Node.stops (.program shared.program) (some start) (start + 1) met
      (⟨node, parent⟩ :: inside.1, shared.id :: inside.2)
termination_by (sizeOf node, 0)
decreasing_by
  · exact .left _ _ node.heaviest_children
  · exact .left _ _ (Node.sizeOf_shared _target)

def nodesStops (nodes : List Node) (parent : Option Nat) (start : Nat) (met : List Nat) :
    List Stop × List Nat :=
  match nodes with
  | [] => ([], met)
  | node :: nodes =>
    let first := node.stops parent start met
    let rest := nodesStops nodes parent (start + first.1.length) first.2
    (first.1 ++ rest.1, rest.2)
termination_by (heaviest nodes, nodes.length + 1)
decreasing_by
  · rw [heaviest, List.foldr_cons, Prod.lex_def]
    dsimp only
    omega
  · rw [heaviest, heaviest, List.foldr_cons, Prod.lex_def]
    dsimp only [List.length_cons]
    omega

end

namespace Node

section Equations

variable {node : Node} {shared : Module} {met : List Nat} (parent : Option Nat) (start : Nat)

theorem stops_parts (plain : node.shared? = none) (met : List Nat) :
    node.stops parent start met =
      (⟨node, parent⟩ :: (nodesStops node.children (some start) (start + 1) met).1,
        (nodesStops node.children (some start) (start + 1) met).2) := by
  rw [stops]
  split
  · rfl
  next target => cases plain.symm.trans target

theorem stops_known (target : node.shared? = some shared) (known : shared.id ∈ met) :
    node.stops parent start met = ([⟨node, parent⟩], met) := by
  rw [stops]
  split
  next plain => cases plain.symm.trans target
  next found =>
    cases target.symm.trans found
    exact if_pos (List.contains_iff_mem.mpr known)

theorem stops_first (target : node.shared? = some shared) (first : shared.id ∉ met) :
    node.stops parent start met =
      (⟨node, parent⟩ :: ((program shared.program).stops (some start) (start + 1) met).1,
        shared.id :: ((program shared.program).stops (some start) (start + 1) met).2) := by
  rw [stops]
  split
  next plain => cases plain.symm.trans target
  next found =>
    cases target.symm.trans found
    exact if_neg fun known => first (List.contains_iff_mem.mp known)

theorem stops_head (met : List Nat) : ∃ inside, (node.stops parent start met).1 = ⟨node, parent⟩ :: inside := by
  rw [stops]
  split
  · exact ⟨_, rfl⟩
  · split <;> exact ⟨_, rfl⟩

end Equations

/-- What holds of a node as soon as it holds of its parts, and behind an import of the program, holds of every
node. -/
@[elab_as_elim] theorem stopsInduction {motive : Node → Prop}
    (step : ∀ node, (∀ child ∈ node.children, motive child) →
      (∀ shared, node.shared? = some shared → motive (program shared.program)) → motive node) (node : Node) :
    motive node :=
  step node (fun child _ => stopsInduction step child) fun shared _ => stopsInduction step (program shared.program)
termination_by sizeOf node
decreasing_by
  · exact sizeOf_children ‹_›
  · exact sizeOf_shared ‹_›

end Node

@[simp] theorem nodesStops_nil (parent : Option Nat) (start : Nat) (met : List Nat) :
    nodesStops [] parent start met = ([], met) := by
  rw [nodesStops]

theorem nodesStops_cons (node : Node) (nodes : List Node) (parent : Option Nat) (start : Nat) (met : List Nat) :
    nodesStops (node :: nodes) parent start met =
      let first := node.stops parent start met
      let rest := nodesStops nodes parent (start + first.1.length) first.2
      (first.1 ++ rest.1, rest.2) := by
  rw [nodesStops]

theorem nodesStops_singleton (node : Node) (parent : Option Nat) (start : Nat) (met : List Nat) :
    nodesStops [node] parent start met = node.stops parent start met := by
  simp [nodesStops_cons]

def Node.allStops (tree : Node) : List Stop := (tree.stops none 0 []).1

/-- The identities of the programs that a walk over a whole tree goes into. -/
def Node.walked (tree : Node) : List Nat := (tree.stops none 0 []).2

section Modules

theorem Node.import_of_shared? {node : Node} {shared : Module} (target : node.shared? = some shared) :
    ∃ path, node = .importEntry ⟨path, some shared⟩ := by
  match node with
  | .importEntry ⟨path, some imported⟩ =>
    cases target
    exact ⟨path, rfl⟩

theorem Node.modules_of_shared {node : Node} {shared : Module} (target : node.shared? = some shared) :
    node.modules = shared :: shared.program.modules := by
  match node with
  | .importEntry ⟨path, some ⟨id, imported⟩⟩ =>
    cases target
    rfl

theorem Node.modules_of_parts {node : Node} (plain : node.shared? = none) :
    node.modules = node.children.flatMap Node.modules := by
  match node with
  | .program ⟨imports, decls⟩ =>
    have own : (decls.map Node.decl).flatMap Node.modules = [] := by simp [Node.modules]
    rw [children, List.flatMap_append, own, List.append_nil, List.flatMap_map]
    exact importsModules_eq_flatMap imports
  | .importEntry ⟨path, none⟩ => rfl
  | .decl (.function declaration) => simp [children, Node.modules]
  | .decl (.object declaration) => simp [children, Node.modules]
  | .parameter _ | .property _ => rfl
  | .stmt line => cases line <;> simp [children, Stmt.children, Node.modules]
  | .expr value => cases value <;> simp [children, Expr.children, Node.modules]

theorem met_nodesStops_of_forall {nodes : List Node} (each : ∀ node ∈ nodes, ∀ parent start met,
    ∀ id ∈ (node.stops parent start met).2, id ∈ met ∨ ∃ shared ∈ node.modules, shared.id = id)
    (parent : Option Nat) (start : Nat) (met : List Nat) :
    ∀ id ∈ (nodesStops nodes parent start met).2,
      id ∈ met ∨ ∃ shared ∈ nodes.flatMap Node.modules, shared.id = id := by
  induction nodes generalizing start met with
  | nil => simp
  | cons node nodes ih =>
    obtain ⟨first, rest⟩ := List.forall_mem_cons.mp each
    intro id walked
    rw [nodesStops_cons] at walked
    simp only [List.flatMap_cons, List.mem_append, or_and_right, exists_or]
    rcases ih rest _ _ id walked with before | later
    · exact (first _ _ _ id before).imp_right .inl
    · exact .inr (.inr later)

theorem Node.met_stops (node : Node) (parent : Option Nat) (start : Nat) (met : List Nat) :
    ∀ id ∈ (node.stops parent start met).2, id ∈ met ∨ ∃ shared ∈ node.modules, shared.id = id := by
  induction node using Node.stopsInduction generalizing parent start met with
  | step node parts behind =>
    cases target : node.shared? with
    | none =>
      rw [stops_parts _ _ target, modules_of_parts target]
      exact met_nodesStops_of_forall parts _ _ _
    | some shared =>
      intro id walked
      rw [modules_of_shared target]
      by_cases known : shared.id ∈ met
      · rw [stops_known _ _ target known] at walked
        exact .inl walked
      · rw [stops_first _ _ target known] at walked
        rcases List.mem_cons.mp walked with rfl | deeper
        · exact .inr ⟨shared, List.mem_cons_self, rfl⟩
        · refine (behind shared target _ _ _ id deeper).imp_right ?_
          rintro ⟨other, below, same⟩
          exact ⟨other, List.mem_cons_of_mem _ below, same⟩

theorem Node.not_mem_met_stops {modules : List Module} (coherent : Coherent modules) {shared : Module}
    (member : shared ∈ modules) (inside : shared.program.modules ⊆ modules) (parent : Option Nat) (start : Nat)
    {met : List Nat} (first : shared.id ∉ met) :
    shared.id ∉ ((Node.program shared.program).stops parent start met).2 := by
  intro walked
  rcases met_stops _ _ _ _ _ walked with known | ⟨other, below, same⟩
  · exact first known
  · cases coherent other (inside below) shared member same
    exact shared.not_mem_modules below

/-- A walk that goes from one list of identities to another has gone into no program twice, and into all of the
given ones. -/
structure WalksInto (modules : List Module) (met later : List Nat) (below : List Module) : Prop where
  distinct : met.Nodup → later.Nodup
  grows : met ⊆ later
  closed : (∀ shared ∈ modules, shared.id ∈ met → ∀ inner ∈ shared.program.modules, inner.id ∈ met) →
    (∀ shared ∈ modules, shared.id ∈ later → ∀ inner ∈ shared.program.modules, inner.id ∈ later) ∧
      ∀ shared ∈ below, shared.id ∈ later

theorem walksInto_nodesStops {modules : List Module} {nodes : List Node}
    (each : ∀ node ∈ nodes, ∀ parent start met,
      WalksInto modules met (node.stops parent start met).2 node.modules)
    (parent : Option Nat) (start : Nat) (met : List Nat) :
    WalksInto modules met (nodesStops nodes parent start met).2 (nodes.flatMap Node.modules) := by
  induction nodes generalizing start met with
  | nil =>
    rw [nodesStops_nil]
    exact ⟨id, List.Subset.refl _, fun closed => ⟨closed, nofun⟩⟩
  | cons node nodes ih =>
    obtain ⟨first, rest⟩ := List.forall_mem_cons.mp each
    have first := first parent start met
    have rest := ih rest (start + (node.stops parent start met).1.length) (node.stops parent start met).2
    rw [nodesStops_cons]
    refine ⟨rest.distinct ∘ first.distinct, List.Subset.trans first.grows rest.grows, fun closed => ?_⟩
    obtain ⟨closedBetween, ahead⟩ := first.closed closed
    obtain ⟨closedLater, behind⟩ := rest.closed closedBetween
    exact ⟨closedLater,
      List.forall_mem_append.mpr ⟨fun shared member => rest.grows (ahead shared member), behind⟩⟩

theorem Node.walksInto_stops {modules : List Module} (coherent : Coherent modules) (node : Node)
    (inside : node.modules ⊆ modules) (parent : Option Nat) (start : Nat) (met : List Nat) :
    WalksInto modules met (node.stops parent start met).2 node.modules := by
  induction node using Node.stopsInduction generalizing parent start met with
  | step node parts behind =>
    cases target : node.shared? with
    | none =>
      rw [stops_parts _ _ target, modules_of_parts target]
      exact walksInto_nodesStops
        (fun child member => parts child member fun _ found => inside (modules_children member found)) _ _ _
    | some shared =>
      have sharedInside : shared :: shared.program.modules ⊆ modules := modules_of_shared target ▸ inside
      obtain ⟨member, below⟩ := List.cons_subset.mp sharedInside
      rw [modules_of_shared target]
      by_cases known : shared.id ∈ met
      · rw [stops_known _ _ target known]
        exact ⟨id, List.Subset.refl _, fun closed =>
          ⟨closed, List.forall_mem_cons.mpr ⟨known, closed shared member known⟩⟩⟩
      · rw [stops_first _ _ target known]
        have deeper := behind shared target below (some start) (start + 1) met
        have fresh := not_mem_met_stops coherent member below (some start) (start + 1) known
        refine ⟨fun distinct => List.nodup_cons.mpr ⟨fresh, deeper.distinct distinct⟩,
          List.subset_cons_of_subset _ deeper.grows, fun closed => ?_⟩
        obtain ⟨closedBelow, found⟩ := deeper.closed closed
        refine ⟨fun other otherMember walked inner innerMember => List.mem_cons_of_mem _ ?_,
          List.forall_mem_cons.mpr ⟨List.mem_cons_self, fun inner innerMember => ?_⟩⟩
        · rcases List.mem_cons.mp walked with same | before
          -- a program of the same identity is the one that has just been walked
          · cases coherent other otherMember shared member same
            exact found inner innerMember
          · exact closedBelow other otherMember before inner innerMember
        · exact List.mem_cons_of_mem _ (found inner innerMember)

/-- A walk over a tree goes into each of its shared programs exactly once. -/
theorem Node.walked_distinct {tree : Node} (coherent : Coherent tree.modules) :
    tree.walked.Nodup ∧ ∀ id, id ∈ tree.walked ↔ ∃ shared ∈ tree.modules, shared.id = id := by
  have into := tree.walksInto_stops coherent (List.Subset.refl _) none 0 []
  refine ⟨into.distinct List.nodup_nil, fun id => ⟨fun walked => ?_, ?_⟩⟩
  · exact (tree.met_stops none 0 [] id walked).resolve_left List.not_mem_nil
  · rintro ⟨shared, member, rfl⟩
    exact (into.closed fun _ _ known => (nomatch known)).right shared member

theorem forall_nodesStops {holds : Stop → Prop} {nodes : List Node}
    (each : ∀ node ∈ nodes, ∀ parent start met, ∀ stop ∈ (node.stops parent start met).1, holds stop)
    (parent : Option Nat) (start : Nat) (met : List Nat) :
    ∀ stop ∈ (nodesStops nodes parent start met).1, holds stop := by
  induction nodes generalizing start met with
  | nil => simp
  | cons node nodes ih =>
    obtain ⟨first, rest⟩ := List.forall_mem_cons.mp each
    rw [nodesStops_cons]
    exact List.forall_mem_append.mpr ⟨first _ _ _, ih rest _ _⟩

theorem Node.shared_of_mem_stops {modules : List Module} (node : Node) (inside : node.modules ⊆ modules)
    (parent : Option Nat) (start : Nat) (met : List Nat) :
    ∀ stop ∈ (node.stops parent start met).1, ∀ shared, stop.node.shared? = some shared → shared ∈ modules := by
  induction node using Node.stopsInduction generalizing parent start met with
  | step node parts behind =>
    cases target : node.shared? with
    | none =>
      rw [stops_parts _ _ target]
      refine List.forall_mem_cons.mpr ⟨fun shared found => (by cases target.symm.trans found), ?_⟩
      exact forall_nodesStops
        (fun child member => parts child member fun _ found => inside (modules_children member found)) _ _ _
    | some shared =>
      have sharedInside : shared :: shared.program.modules ⊆ modules := modules_of_shared target ▸ inside
      obtain ⟨member, below⟩ := List.cons_subset.mp sharedInside
      have own : ∀ other, node.shared? = some other → other ∈ modules := fun other found => by
        cases target.symm.trans found
        exact member
      by_cases known : shared.id ∈ met
      · rw [stops_known _ _ target known]
        exact List.forall_mem_singleton.mpr own
      · rw [stops_first _ _ target known]
        exact List.forall_mem_cons.mpr ⟨own, behind shared target below _ _ _⟩

def Node.moduleAt (tree : Node) (index : Nat) : Option Module :=
  tree.allStops[index]?.bind fun stop => stop.node.shared?

theorem Node.moduleAt_eq_iff {tree : Node} (coherent : Coherent tree.modules) (first second : Nat) :
    tree.moduleAt first = tree.moduleAt second ↔
      (tree.moduleAt first).map Module.id = (tree.moduleAt second).map Module.id := by
  have member {index : Nat} {shared : Module} (found : tree.moduleAt index = some shared) :
      shared ∈ tree.modules := by
    obtain ⟨stop, listed, target⟩ := Option.bind_eq_some_iff.mp found
    exact tree.shared_of_mem_stops (List.Subset.refl _) none 0 [] stop (List.mem_of_getElem? listed) shared target
  refine ⟨congrArg _, fun same => ?_⟩
  cases left : tree.moduleAt first with
  | none => cases right : tree.moduleAt second with
    | none => rfl
    | some other => rw [left, right] at same; cases same
  | some shared => cases right : tree.moduleAt second with
    | none => rw [left, right] at same; cases same
    | some other =>
      rw [left, right] at same
      rw [coherent shared (member left) other (member right) (Option.some.inj same)]

end Modules

section Order

def Earlier : Nat → List Stop → Prop
  | _, [] => True
  | next, stop :: stops => (∀ index ∈ stop.parent, index < next) ∧ Earlier (next + 1) stops

theorem Earlier.append {next : Nat} {first second : List Stop} (ahead : Earlier next first)
    (behind : Earlier (next + first.length) second) : Earlier next (first ++ second) := by
  induction first generalizing next with
  | nil => exact behind
  | cons stop first ih =>
    refine ⟨ahead.left, ih ahead.right ?_⟩
    rwa [List.length_cons, Nat.add_comm first.length, ← Nat.add_assoc] at behind

theorem earlier_nodesStops_of_forall {nodes : List Node} (each : ∀ node ∈ nodes, ∀ parent start met,
    (∀ index ∈ parent, index < start) → Earlier start (node.stops parent start met).1)
    {parent : Option Nat} {start : Nat} (before : ∀ index ∈ parent, index < start) (met : List Nat) :
    Earlier start (nodesStops nodes parent start met).1 := by
  induction nodes generalizing start met with
  | nil => rw [nodesStops_nil]; trivial
  | cons node nodes ih =>
    obtain ⟨first, rest⟩ := List.forall_mem_cons.mp each
    rw [nodesStops_cons]
    exact (first parent start met before).append
      (ih rest (fun index found => Nat.lt_add_right _ (before index found)) _)

theorem Node.earlier_stops (node : Node) (parent : Option Nat) (start : Nat) (met : List Nat)
    (before : ∀ index ∈ parent, index < start) : Earlier start (node.stops parent start met).1 := by
  induction node using Node.stopsInduction generalizing parent start met with
  | step node parts behind =>
    have own : ∀ index ∈ some start, index < start + 1 := fun index same => by
      cases same
      exact Nat.lt_succ_self _
    cases target : node.shared? with
    | none =>
      rw [stops_parts _ _ target]
      exact ⟨before, earlier_nodesStops_of_forall parts own met⟩
    | some shared =>
      by_cases known : shared.id ∈ met
      · rw [stops_known _ _ target known]
        exact ⟨before, trivial⟩
      · rw [stops_first _ _ target known]
        exact ⟨before, behind shared target _ _ met own⟩

end Order

section Pruned

variable {kinds : List NodeKind}

def Node.Free (kinds : List NodeKind) (node : Node) : Prop :=
  kinds.contains node.kind = false ∧ node.mayContain kinds = false

theorem contains_eq_false_of_any {holds : NodeKind → Bool} (free : kinds.any holds = false) {kind : NodeKind}
    (found : holds kind = true) : kinds.contains kind = false := by
  rw [Bool.eq_false_iff]
  intro member
  exact List.any_eq_false.mp free kind (List.contains_iff_mem.mp member) found

theorem any_eq_false_of_imp {holds narrower : NodeKind → Bool} (free : kinds.any holds = false)
    (implies : ∀ kind, narrower kind = true → holds kind = true) : kinds.any narrower = false :=
  List.any_eq_false.mpr fun kind member found => List.any_eq_false.mp free kind member (implies kind found)

theorem Expr.free_of_any (free : kinds.any NodeKind.isExpression = false) (expr : Expr) :
    (Node.expr expr).Free kinds :=
  ⟨contains_eq_false_of_any free expr.isExpression_kind, free⟩

theorem Stmt.free_of_any (free : kinds.any (fun kind => kind.isStatement || kind.isExpression) = false)
    (stmt : Stmt) : (Node.stmt stmt).Free kinds :=
  ⟨contains_eq_false_of_any free (Bool.or_eq_true_iff.mpr (.inl stmt.isStatement_kind)), free⟩

theorem Expr.sort_children (expr : Expr) : ∀ child ∈ expr.children, ∃ part, child = .expr part := by
  cases expr <;> simp [children]

theorem Stmt.sort_children (stmt : Stmt) :
    ∀ child ∈ stmt.children, (∃ part, child = .expr part) ∨ ∃ line, child = .stmt line := by
  cases stmt <;> simp [children]

theorem Node.free_children {node : Node} (pruned : node.mayContain kinds = false) :
    ∀ child ∈ node.children, child.Free kinds := by
  intro child member
  match node with
  | .program _ | .importEntry _ => cases pruned
  | .parameter _ | .property _ => nomatch member
  | .decl (.object declaration) =>
    obtain ⟨property, _, rfl⟩ := List.mem_map.mp member
    exact ⟨pruned, rfl⟩
  | .decl (.function declaration) =>
    rcases List.mem_append.mp member with parameter | body
    · obtain ⟨parameter, _, rfl⟩ := List.mem_map.mp parameter
      exact ⟨contains_eq_false_of_any pruned rfl, rfl⟩
    · rw [List.mem_singleton.mp body]
      exact Stmt.free_of_any (any_eq_false_of_imp pruned (by simp +contextual [or_imp])) _
  | .stmt line =>
    rcases line.sort_children child member with ⟨part, rfl⟩ | ⟨other, rfl⟩
    · exact Expr.free_of_any (any_eq_false_of_imp pruned (by simp +contextual)) part
    · exact Stmt.free_of_any pruned other
  | .expr value =>
    obtain ⟨part, rfl⟩ := value.sort_children child member
    exact Expr.free_of_any pruned part

theorem Node.shared?_of_pruned {node : Node} (pruned : node.mayContain kinds = false) : node.shared? = none := by
  cases node with
  | importEntry entry => cases pruned
  | _ => rfl

theorem Node.modules_of_pruned {node : Node} (pruned : node.mayContain kinds = false) : node.modules = [] := by
  cases node with
  | program _ => cases pruned
  | importEntry _ => cases pruned
  | _ => rfl

theorem free_nodesStops_of_forall {nodes : List Node} (each : ∀ node ∈ nodes, ∀ parent start met,
    (node.stops parent start met).2 = met ∧
      ∀ stop ∈ (node.stops parent start met).1, kinds.contains stop.node.kind = false)
    (parent : Option Nat) (start : Nat) (met : List Nat) :
    (nodesStops nodes parent start met).2 = met ∧
      ∀ stop ∈ (nodesStops nodes parent start met).1, kinds.contains stop.node.kind = false := by
  have same : (nodesStops nodes parent start met).2 = met := by
    induction nodes generalizing start met with
    | nil => rw [nodesStops_nil]
    | cons node nodes ih =>
      obtain ⟨first, rest⟩ := List.forall_mem_cons.mp each
      rw [nodesStops_cons]
      exact (ih rest _ _).trans (first parent start met).left
  exact ⟨same, forall_nodesStops (fun node member parent start met => (each node member parent start met).right)
    parent start met⟩

theorem Node.Free.stops {node : Node} (free : node.Free kinds) (parent : Option Nat) (start : Nat)
    (met : List Nat) :
    (node.stops parent start met).2 = met ∧
      ∀ stop ∈ (node.stops parent start met).1, kinds.contains stop.node.kind = false := by
  induction node using Node.stopsInduction generalizing parent start met with
  | step node parts behind =>
    rw [stops_parts _ _ (shared?_of_pruned free.right)]
    obtain ⟨same, rest⟩ := free_nodesStops_of_forall
      (fun child member => parts child member (free_children free.right child member)) (some start) (start + 1) met
    exact ⟨same, List.forall_mem_cons.mpr ⟨free.left, rest⟩⟩

theorem Node.free_nodesStops {node : Node} (pruned : node.mayContain kinds = false) (parent : Option Nat)
    (start : Nat) (met : List Nat) :
    (nodesStops node.children parent start met).2 = met ∧
      ∀ stop ∈ (nodesStops node.children parent start met).1, kinds.contains stop.node.kind = false :=
  free_nodesStops_of_forall (fun child member => (free_children pruned child member).stops) parent start met

end Pruned

end TypedTree
