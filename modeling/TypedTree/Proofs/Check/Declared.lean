import TypedTree.Tree.Visit
import TypedTree.Proofs.Tree.Children
import TypedTree.Proofs.Check.Sharing
import Mathlib.Data.List.Induction
/-! Types are declared before they are used. A tree is accepted exactly if no type name in its list of
events comes before a declaration of it, and the first one that does is reported. The list is what a walk
over the tree meets: no node that declares or names a type is passed over or met out of order. -/

namespace TypedTree

/-- Every type name used is a builtin one, or the name of an object declared further ahead. -/
def DeclaredBeforeUse (events : List TypeEvent) : Prop :=
  ∀ before name after, events = before ++ .uses name :: after →
    name ∈ Ty.builtinNames ∨ .declares name ∈ before

/-- The name is used without being declared, and all names used ahead of it are declared. -/
def FirstUndeclared (events : List TypeEvent) (name : String) : Prop :=
  ∃ before after, events = before ++ .uses name :: after ∧ DeclaredBeforeUse before ∧
    name ∉ Ty.builtinNames ∧ .declares name ∉ before

section Order

variable {events : List TypeEvent} {event : TypeEvent} {name : String}

theorem DeclaredBeforeUse.nil : DeclaredBeforeUse [] := by
  intro before _ after none
  cases before <;> cases none

theorem declaredBeforeUse_concat :
    DeclaredBeforeUse (events ++ [event]) ↔
      DeclaredBeforeUse events ∧
        ∀ name, event = .uses name → name ∈ Ty.builtinNames ∨ .declares name ∈ events := by
  constructor
  · intro declared
    constructor
    · intro before name after same
      apply declared before name (after ++ [event])
      rw [same, List.append_assoc, List.cons_append]
    · intro name same
      exact declared events name [] (by rw [same])
  · rintro ⟨declared, last⟩ before name after same
    rcases List.eq_nil_or_concat after with rfl | ⟨after, final, rfl⟩
    · obtain ⟨rfl, final⟩ := List.append_inj' same rfl
      exact last name (List.singleton_inj.mp final)
    · rw [List.concat_eq_append, ← List.cons_append, ← List.append_assoc] at same
      exact declared before name after (List.append_inj' same rfl).left

theorem FirstUndeclared.append (first : FirstUndeclared events name) (more : List TypeEvent) :
    FirstUndeclared (events ++ more) name := by
  obtain ⟨before, after, rfl, declared, unknown, undeclared⟩ := first
  exact ⟨before, after ++ more, by rw [List.append_assoc, List.cons_append], declared, unknown, undeclared⟩

theorem FirstUndeclared.not_declaredBeforeUse (first : FirstUndeclared events name) :
    ¬ DeclaredBeforeUse events := by
  obtain ⟨before, after, same, _, unknown, undeclared⟩ := first
  intro declared
  exact (declared before name after same).elim unknown undeclared

end Order

namespace DeclaredTypes

variable {declared later : DeclaredTypes} {events : List TypeEvent} {error : Error}

theorem meetAll_concat (declared : DeclaredTypes) (events : List TypeEvent) (event : TypeEvent) :
    declared.meetAll (events ++ [event]) = declared.meetAll events >>= fun later => later.meet event := by
  rw [meetAll_append]
  cases declared.meetAll events with
  | error error => rfl
  | ok middle =>
    change middle.meetAll [event] = middle.meet event
    rw [meetAll_cons]
    cases middle.meet event <;> rfl

theorem contains_meetAll (met : declared.meetAll events = .ok later) (name : String) :
    later.contains name = true ↔ declared.contains name = true ∨ .declares name ∈ events := by
  induction events generalizing declared with
  | nil =>
    cases met
    simp
  | cons event events ih =>
    rw [meetAll_cons, bind_eq_ok_iff] at met
    obtain ⟨middle, first, rest⟩ := met
    rw [ih rest]
    cases event with
    | declares other =>
      cases first
      simp only [contains_register, Bool.or_eq_true, beq_iff_eq, List.mem_cons, TypeEvent.declares.injEq]
      rw [or_assoc, or_left_comm]
    | uses other =>
      simp only [meet] at first
      split at first
      · cases first
        simp
      · cases first

theorem meetAll_outcome (events : List TypeEvent) :
    (∃ declared, meetAll {} events = .ok declared) ∧ DeclaredBeforeUse events ∨
      ∃ name, meetAll {} events = .error (.undeclaredType name) ∧ FirstUndeclared events name := by
  induction events using List.reverseRecOn with
  | nil => exact .inl ⟨⟨{}, rfl⟩, .nil⟩
  | append_singleton events event ih =>
    rw [meetAll_concat]
    rcases ih with ⟨⟨declared, met⟩, ordered⟩ | ⟨name, failed, first⟩
    · rw [met, declaredBeforeUse_concat]
      have known := contains_meetAll met
      cases event with
      | declares name => exact .inl ⟨⟨_, rfl⟩, ordered, fun _ same => (nomatch same)⟩
      | uses name =>
        have builtin : ∀ name, (({} : DeclaredTypes).contains name = true) ↔ name ∈ Ty.builtinNames :=
          fun name => List.contains_iff_mem
        by_cases found : declared.contains name = true
        · refine .inl ⟨⟨declared, if_pos found⟩, ordered, ?_⟩
          intro other same
          cases same
          rw [← builtin, ← known]
          exact found
        · refine .inr ⟨name, if_neg found, events, [], rfl, ordered, ?_⟩
          rw [known, not_or, builtin] at found
          exact found
    · exact .inr ⟨name, by rw [failed]; rfl, first.append [event]⟩

end DeclaredTypes

/-! ### The events as a walk meets them -/

namespace DeclaredTypes

def kinds : List NodeKind := [.object, .declare, .function, .parameter, .property]

def handler : Handler DeclaredTypes := fun node _ declared =>
  match declared.meetNode node with
  | .ok later => (.ok node, later)
  | .error error => (.error error, declared)

theorem contains_kinds (node : Node) : kinds.contains node.kind = node.typeEvent?.isSome := by
  match node with
  | .program _ | .importEntry _ | .parameter _ | .property _ => rfl
  | .decl decl => cases decl <;> rfl
  | .stmt line => cases line <;> rfl
  | .expr value => cases value <;> rfl

end DeclaredTypes

def Node.typeEvents : Node → (met : List Nat) → List TypeEvent × List Nat
  | .program tree, met => tree.typeEvents met
  | .importEntry entry, met => Import.typeEvents entry met
  | .decl declaration, met => (declaration.typeEvents, met)
  | .parameter named, met | .property named, met => ([.uses named.type.name], met)
  | .stmt line, met => (line.typeEvents, met)
  | .expr _, met => ([], met)

def nodesTypeEvents : List Node → (met : List Nat) → List TypeEvent × List Nat
  | [], met => ([], met)
  | node :: nodes, met =>
    let first := node.typeEvents met
    let rest := nodesTypeEvents nodes first.2
    (first.1 ++ rest.1, rest.2)

def Node.modules : Node → List Module
  | .program tree => tree.modules
  | .importEntry entry => Import.modules entry
  | .decl _ | .parameter _ | .property _ | .stmt _ | .expr _ => []

section Events

theorem nodesTypeEvents_append (nodes others : List Node) (met : List Nat) :
    nodesTypeEvents (nodes ++ others) met =
      ((nodesTypeEvents nodes met).1 ++ (nodesTypeEvents others (nodesTypeEvents nodes met).2).1,
        (nodesTypeEvents others (nodesTypeEvents nodes met).2).2) := by
  induction nodes generalizing met with
  | nil => rfl
  | cons node nodes ih => simp only [List.cons_append, nodesTypeEvents, ih, List.append_assoc]

theorem nodesTypeEvents_imports (imports : List Import) (met : List Nat) :
    nodesTypeEvents (imports.map .importEntry) met = importsTypeEvents imports met := by
  induction imports generalizing met with
  | nil => rfl
  | cons entry imports ih =>
    simp only [List.map_cons, nodesTypeEvents, Node.typeEvents, importsTypeEvents, ih]

theorem nodesTypeEvents_map {α : Type} (inject : α → Node) (events : α → List TypeEvent)
    (each : ∀ value met, (inject value).typeEvents met = (events value, met)) (values : List α)
    (met : List Nat) : nodesTypeEvents (values.map inject) met = (values.flatMap events, met) := by
  induction values with
  | nil => rfl
  | cons value values ih => simp only [List.map_cons, nodesTypeEvents, each, ih, List.flatMap_cons]

theorem nodesTypeEvents_exprs (values : List Expr) (met : List Nat) :
    nodesTypeEvents (values.map .expr) met = ([], met) := by
  rw [nodesTypeEvents_map Node.expr (fun _ => []) fun _ _ => rfl]
  simp

theorem linesTypeEvents_eq (lines : List Stmt) : linesTypeEvents lines = lines.flatMap Stmt.typeEvents := by
  induction lines with
  | nil => rfl
  | cons line lines ih => rw [linesTypeEvents, ih, List.flatMap_cons]

theorem Stmt.typeEvents_eq (stmt : Stmt) (met : List Nat) :
    (stmt.typeEvents, met) = ((Node.stmt stmt).typeEvent?.toList ++ (nodesTypeEvents stmt.children met).1,
      (nodesTypeEvents stmt.children met).2) := by
  cases stmt with
  | declare name type value =>
    rw [children, nodesTypeEvents_exprs]
    rfl
  | assign target value => rfl
  | branch condition thenBranch elseBranch =>
    cases elseBranch <;>
      simp [children, nodesTypeEvents, Node.typeEvents, Node.typeEvent?, typeEvents, elseTypeEvents]
  | call callee args type =>
    rw [children, ← List.map_cons, nodesTypeEvents_exprs]
    rfl
  | block lines =>
    rw [children, nodesTypeEvents_map Node.stmt Stmt.typeEvents fun _ _ => rfl, typeEvents,
      linesTypeEvents_eq]
    rfl

theorem Expr.typeEvents_eq (expr : Expr) (met : List Nat) :
    nodesTypeEvents expr.children met = ([], met) := by
  cases expr with
  | call callee args type => rw [children, ← List.map_cons, nodesTypeEvents_exprs]
  | _ => rfl

theorem Node.typeEvents_eq (node : Node) (met : List Nat) (plain : ∀ entry, node ≠ .importEntry entry) :
    node.typeEvents met = (node.typeEvent?.toList ++ (nodesTypeEvents node.children met).1,
      (nodesTypeEvents node.children met).2) := by
  match node with
  | .importEntry entry => exact absurd rfl (plain entry)
  | .program ⟨imports, decls⟩ =>
    have own := nodesTypeEvents_map Node.decl Decl.typeEvents fun _ _ => rfl
    simp only [children, nodesTypeEvents_append, nodesTypeEvents_imports, own]
    rfl
  | .decl (.function declaration) =>
    have params := nodesTypeEvents_map Node.parameter (fun parameter => [.uses parameter.type.name])
      fun _ _ => rfl
    simp only [children, nodesTypeEvents_append, params, nodesTypeEvents, typeEvents, List.append_nil]
    simp [typeEvent?, Decl.typeEvents, Stmt.typeEvents, List.map_eq_flatMap]
  | .decl (.object declaration) =>
    have properties := nodesTypeEvents_map Node.property (fun property => [.uses property.type.name])
      fun _ _ => rfl
    simp only [children, properties, typeEvents]
    simp [typeEvent?, Decl.typeEvents, List.map_eq_flatMap]
  | .parameter _ | .property _ => rfl
  | .stmt line => exact line.typeEvents_eq met
  | .expr value => rw [children, value.typeEvents_eq]; rfl

theorem Node.typeEvents_of_pruned {node : Node} (pruned : node.mayContain DeclaredTypes.kinds = false)
    (met : List Nat) : nodesTypeEvents node.children met = ([], met) := by
  match node with
  | .program _ | .importEntry _ => cases pruned
  | .decl (.function _) | .decl (.object _) | .stmt _ => cases pruned
  | .parameter _ | .property _ => rfl
  | .expr value => exact value.typeEvents_eq met

end Events

section Walk

variable (modules : List Module)

/-- The table of a walk holds the shared programs that have been met, as they are, and no others. -/
def Walked (met : List Nat) (table : Table Nat Program) : Prop :=
  ∀ shared ∈ modules, table.find? shared.id = if shared.id ∈ met then some shared.program else none

/-- A step of a walk leaves a value as it is and meets the events behind it, or ends where they end. -/
def Meets {α : Type} (step : Walk DeclaredTypes α) (value : α)
    (events : List Nat → List TypeEvent × List Nat) : Prop :=
  ∀ (met : List Nat) (state : WalkState DeclaredTypes), Walked modules met state.shared →
    match state.handler.meetAll (events met).1 with
    | .ok later => ∃ table, Walked modules (events met).2 table ∧ step state = (.ok value, ⟨later, table⟩)
    | .error error => ∃ stopped, step state = (.error (.failed error), stopped)

variable {modules} {α β : Type}

theorem Meets.done (value : α) : Meets modules (Walk.ofExcept (.ok value)) value fun met => ([], met) :=
  fun _ state walked => ⟨state.shared, walked, rfl⟩

theorem Meets.andThen {step : Walk DeclaredTypes α} {next : α → Walk DeclaredTypes β} {value : α}
    {result : β} {events more both : List Nat → List TypeEvent × List Nat}
    (first : Meets modules step value events) (second : Meets modules (next value) result more)
    (joined : ∀ met, both met = ((events met).1 ++ (more (events met).2).1, (more (events met).2).2)) :
    Meets modules (step.andThen next) result both := by
  intro met state walked
  have ran := first met state walked
  simp only [joined, DeclaredTypes.meetAll_append, Walk.andThen]
  cases reached : state.handler.meetAll (events met).1 with
  | error error =>
    rw [reached] at ran
    obtain ⟨stopped, ran⟩ := ran
    exact ⟨stopped, by rw [ran]⟩
  | ok later =>
    rw [reached] at ran
    obtain ⟨table, walkedLater, ran⟩ := ran
    rw [ran]
    exact second (events met).2 ⟨later, table⟩ walkedLater

theorem meets_handle (node : Node) (parent : Option Node) :
    Meets modules (Walk.handle DeclaredTypes.kinds DeclaredTypes.handler node parent) node
      fun met => (node.typeEvent?.toList, met) := by
  intro met state walked
  simp only [Walk.handle, DeclaredTypes.contains_kinds, DeclaredTypes.handler, DeclaredTypes.meetNode]
  cases node.typeEvent? with
  | none => exact ⟨state.shared, walked, rfl⟩
  | some event =>
    simp only [Option.toList, Option.isSome, if_true, DeclaredTypes.meetAll_cons]
    cases state.handler.meet event with
    | error error => exact ⟨_, rfl⟩
    | ok later => exact ⟨state.shared, walked, rfl⟩

theorem meets_all {step : Node → Walk DeclaredTypes Node} (nodes : List Node)
    (each : ∀ node ∈ nodes, Meets modules (step node) node node.typeEvents) :
    Meets modules (Walk.all step nodes) nodes (nodesTypeEvents nodes) := by
  induction nodes with
  | nil => exact .done []
  | cons node nodes ih =>
    obtain ⟨first, rest⟩ := List.forall_mem_cons.mp each
    have others : Meets modules ((Walk.all step nodes).andThen fun rest => Walk.ofExcept (.ok (node :: rest)))
        (node :: nodes) (nodesTypeEvents nodes) :=
      (ih rest).andThen (.done (node :: nodes)) fun _ => by rw [List.append_nil]
    exact first.andThen others fun _ => rfl

def walkShared {σ : Type} (path : String) (shared : Module) (step : Walk σ Node) : Walk σ Node :=
  fun state =>
    match state.shared.find? shared.id with
    | some walked => (.ok (.importEntry ⟨path, some ⟨shared.id, walked⟩⟩), state)
    | none =>
      (step.andThen fun walked => (Walk.ofExcept walked.toProgram).andThen fun program => fun state =>
        (.ok (.importEntry ⟨path, some ⟨shared.id, program⟩⟩),
          { state with shared := state.shared.insert shared.id program })) state

/-- A shared program that has been met is replaced by what the table holds, which is the program itself. -/
theorem Meets.shared (coherent : Coherent modules) (path : String) {shared : Module}
    (member : shared ∈ modules) {step : Walk DeclaredTypes Node}
    (inside : Meets modules step (.program shared.program) shared.program.typeEvents) :
    Meets modules (walkShared path shared step) (.importEntry ⟨path, some shared⟩)
      (Module.typeEvents shared) := by
  intro met state walked
  obtain ⟨id, program⟩ := shared
  have found := walked _ member
  simp only [Module.typeEvents, List.contains_iff_mem]
  by_cases seen : id ∈ met
  · rw [if_pos seen] at found
    simp only [if_pos seen, walkShared, found]
    exact ⟨state.shared, walked, rfl⟩
  · rw [if_neg seen] at found
    simp only [if_neg seen, walkShared, found, Walk.andThen]
    have ran := inside met state walked
    cases reached : state.handler.meetAll (program.typeEvents met).1 with
    | error error =>
      rw [reached] at ran
      obtain ⟨stopped, ran⟩ := ran
      exact ⟨stopped, by rw [ran]⟩
    | ok later =>
      rw [reached] at ran
      obtain ⟨table, walkedLater, ran⟩ := ran
      rw [ran]
      refine ⟨table.insert id program, ?_, rfl⟩
      intro other otherMember
      rw [Table.find?_insert]
      by_cases same : other.id = id
      · rw [coherent other otherMember ⟨id, program⟩ member same]
        simp
      · rw [if_neg same, walkedLater other otherMember]
        simp [same]

theorem meets_parts {step : Node → Walk DeclaredTypes Node} (node : Node)
    (each : ∀ child ∈ node.children, Meets modules (step child) child child.typeEvents) :
    Meets modules
      (if !node.mayContain DeclaredTypes.kinds then Walk.ofExcept (.ok node)
        else (Walk.all step node.children).andThen fun children => Walk.ofExcept (node.withChildren children))
      node (nodesTypeEvents node.children) := by
  cases pruned : node.mayContain DeclaredTypes.kinds with
  | false =>
    rw [funext (Node.typeEvents_of_pruned pruned)]
    exact .done node
  | true =>
    have rebuilt : Meets modules (Walk.ofExcept (node.withChildren node.children)) node
        fun met => ([], met) := by
      rw [node.withChildren_children]
      exact .done node
    exact (meets_all node.children each).andThen rebuilt fun _ => by rw [List.append_nil]

theorem Import.modules_subset {entry : Import} {imports : List Import} (member : entry ∈ imports) :
    Import.modules entry ⊆ importsModules imports := by
  intro shared found
  rw [importsModules_eq_flatMap]
  exact List.mem_flatMap_of_mem member found

theorem Node.modules_children {node child : Node} (member : child ∈ node.children) :
    child.modules ⊆ node.modules := by
  have none {child : Node} (own : child.modules = []) : child.modules ⊆ node.modules :=
    own ▸ List.nil_subset _
  match node with
  | .program ⟨imports, decls⟩ =>
    simp only [children, List.mem_append, List.mem_map] at member
    rcases member with ⟨entry, member, rfl⟩ | ⟨decl, _, rfl⟩
    · exact Import.modules_subset member
    · exact none rfl
  | .importEntry _ | .parameter _ | .property _ => cases member
  | .decl (.function declaration) =>
    simp only [children, List.mem_append, List.mem_map, List.mem_singleton] at member
    rcases member with ⟨parameter, _, rfl⟩ | rfl <;> exact none rfl
  | .decl (.object declaration) =>
    obtain ⟨property, _, rfl⟩ := List.mem_map.mp member
    exact none rfl
  | .stmt line =>
    have own : ∀ child ∈ line.children, child.modules = [] := by
      cases line <;> simp [Stmt.children, Node.modules, or_imp, forall_and]
    exact none (own child member)
  | .expr value =>
    have own : ∀ child ∈ value.children, child.modules = [] := by
      cases value <;> simp [Expr.children, Node.modules, or_imp, forall_and]
    exact none (own child member)

theorem meets_walk (coherent : Coherent modules) (depth : Nat) (node : Node) (parent : Option Node)
    (room : sizeOf node ≤ depth) (inside : node.modules ⊆ modules) :
    Meets modules (walk DeclaredTypes.kinds DeclaredTypes.handler depth node parent) node
      node.typeEvents := by
  induction depth generalizing node parent with
  | zero =>
    have positive := node.sizeOf_pos
    omega
  | succ depth ih =>
    rw [walk]
    have handled : Meets modules _ node _ := meets_handle node parent
    have each : ∀ child ∈ node.children, Meets modules
        (walk DeclaredTypes.kinds DeclaredTypes.handler depth child (some node)) child child.typeEvents := by
      intro child member
      have smaller := Node.sizeOf_children member
      exact ih child (some node) (by omega) fun _ below => inside (Node.modules_children member below)
    match node with
    | .importEntry ⟨path, none⟩ =>
      exact handled.andThen (.done (Node.importEntry ⟨path, none⟩)) fun _ => rfl
    | .importEntry ⟨path, some shared⟩ =>
      obtain ⟨id, program⟩ := shared
      have smaller : sizeOf (Node.program program) ≤ depth := by
        simp at room ⊢
        omega
      have below := ih (.program program) (some (Node.importEntry ⟨path, some ⟨id, program⟩⟩)) smaller
        fun _ below => inside (List.mem_cons_of_mem _ below)
      exact handled.andThen (Meets.shared coherent path (inside List.mem_cons_self) below) fun _ => rfl
    | .program _ | .decl _ | .parameter _ | .property _ | .stmt _ | .expr _ =>
      exact handled.andThen (meets_parts _ each) fun met =>
        Node.typeEvents_eq _ met fun _ same => (nomatch same)

end Walk

/-- A walk over declarations that has room for a program checks them, and leaves the program as it is. -/
theorem Program.visit_declarations {program : Program} (coherent : program.Coherent) {depth : Nat}
    (room : sizeOf (Node.program program) ≤ depth) :
    (visit depth DeclaredTypes.kinds DeclaredTypes.handler (.program program) none {}).1 =
      (program.checkTypeDeclarations.map fun _ => Node.program program).mapError .failed := by
  have met := meets_walk coherent depth (.program program) none room (List.Subset.refl _) [] { handler := {} }
    fun _ _ => rfl
  have check : program.checkTypeDeclarations =
      DeclaredTypes.meetAll {} (program.typeEvents []).1 >>= fun _ => .ok () := rfl
  simp only [Node.typeEvents] at met
  rw [check]
  cases reached : DeclaredTypes.meetAll {} (program.typeEvents []).1 with
  | error error =>
    rw [reached] at met
    obtain ⟨stopped, ran⟩ := met
    exact congrArg Prod.fst ran
  | ok declared =>
    rw [reached] at met
    obtain ⟨table, _, ran⟩ := met
    exact congrArg Prod.fst ran

/-- Types are declared before they are used, the check accepts the tree, and a walk over it gives it back
unchanged; or both end with the first name that is used without being declared. -/
theorem Program.checkTypeDeclarations_outcome {program : Program} (coherent : program.Coherent)
    {depth : Nat} (room : sizeOf (Node.program program) ≤ depth) :
    let events := (program.typeEvents []).1
    let walked := (visit depth DeclaredTypes.kinds DeclaredTypes.handler (.program program) none {}).1
    (DeclaredBeforeUse events ∧ program.checkTypeDeclarations = .ok () ∧ walked = .ok (.program program)) ∨
      (¬ DeclaredBeforeUse events ∧ ∃ name, FirstUndeclared events name ∧
        program.checkTypeDeclarations = .error (.undeclaredType name) ∧
        walked = .error (.failed (.undeclaredType name))) := by
  intro events walked
  have visited : walked = _ := program.visit_declarations coherent room
  have check : program.checkTypeDeclarations = DeclaredTypes.meetAll {} events >>= fun _ => .ok () := rfl
  rcases DeclaredTypes.meetAll_outcome events with ⟨⟨declared, accepted⟩, ordered⟩ | ⟨name, failed, first⟩
  · rw [accepted] at check
    rw [check] at visited
    exact .inl ⟨ordered, check, visited⟩
  · rw [failed] at check
    rw [check] at visited
    exact .inr ⟨first.not_declaredBeforeUse, name, first, check, visited⟩

/-- An object declared behind two imports may be named below them, but an object declared nowhere may not,
however deep in a body. -/
theorem Program.checkTypeDeclarations_outcome_nested :
    let shapes := Program.mk [] [.object { exported := true, name := "Shape" }]
    let body := [Stmt.branch (.bool true none) (.block [.declare "size" (.scalar "Size") none]) none]
    let draw := FunctionDecl.mk false "draw" .void [⟨"shape", .scalar "Shape"⟩] body
    let program : Program := ⟨[⟨"a", some ⟨0, shapes⟩⟩, ⟨"b", some ⟨0, shapes⟩⟩], [.function draw]⟩
    let depth := sizeOf (Node.program program)
    program.Coherent ∧ FirstUndeclared (program.typeEvents []).1 "Size" ∧
      (visit depth DeclaredTypes.kinds DeclaredTypes.handler (.program program) none {}).1 =
        .error (.failed (.undeclaredType "Size")) := by
  intro shapes body draw program depth
  have coherent : program.Coherent := by
    intro left leftIn right rightIn _
    have modules : program.modules = List.replicate 2 ⟨0, shapes⟩ := rfl
    rw [modules] at leftIn rightIn
    rw [List.eq_of_mem_replicate leftIn, List.eq_of_mem_replicate rightIn]
  have checks : program.checkTypeDeclarations = .error (.undeclaredType "Size") := rfl
  refine ⟨coherent, ?_⟩
  rcases Program.checkTypeDeclarations_outcome coherent (Nat.le_refl depth) with
    ⟨_, accepted, _⟩ | ⟨_, name, first, refused, walked⟩
  · cases checks.symm.trans accepted
  · cases checks.symm.trans refused
    exact ⟨first, walked⟩

end TypedTree
