import TypedTree.Proofs.Tree.Slots
/-! Exchanging the parts of a node. A node takes parts in place of its own if they fit into its slots; then it has these
parts, and everything else that makes up the node stays. If they do not fit, the first one that does not is reported. -/

namespace TypedTree

namespace Rebuild

variable {α β : Type} {slot : Slot} {slots others : List Slot}

/-- A step takes parts for slots and makes something of what stands in the slots then, or it fails because of the
first part that does not fit. -/
structure Takes (step : Rebuild α) (slots : List Slot) (made : α → List Node → Prop) : Prop where
  gives : ∀ {parts value rest}, step parts = .ok (value, rest) →
    ∃ used nodes, parts = used ++ rest ∧ Placed slots used nodes ∧ made value nodes
  fails : ∀ {parts error}, step parts = .error error →
    ∃ message, error = .malformed message ∧ ∀ more, Misfit (slots ++ more) parts message

variable {made : α → List Node → Prop}

theorem Takes.pure {value : α} (holds : made value []) : Takes (pure value) [] made where
  gives given := by
    cases given
    exact ⟨[], [], rfl, .nil, holds⟩
  fails failed := nomatch failed

theorem Takes.bind {first : Rebuild α} {next : α → Rebuild β} {madeNext : β → List Node → Prop}
    (takes : Takes first slots made)
    (further : ∀ value nodes, made value nodes →
      Takes (next value) others fun result more => madeNext result (nodes ++ more)) :
    Takes (first >>= next) (slots ++ others) madeNext where
  gives given := by
    rw [bind_apply, bind_eq_ok_iff] at given
    obtain ⟨⟨value, between⟩, ran, given⟩ := given
    obtain ⟨used, nodes, rfl, placed, holds⟩ := takes.gives ran
    obtain ⟨more, found, rfl, behind, made⟩ := (further value nodes holds).gives given
    exact ⟨used ++ more, nodes ++ found, (List.append_assoc _ _ _).symm, placed.append behind, made⟩
  fails {parts _} failed := by
    rw [bind_apply] at failed
    rcases ran : first parts with error | ⟨value, rest⟩
    · rw [ran] at failed
      cases failed
      obtain ⟨message, same, misfit⟩ := takes.fails ran
      exact ⟨message, same, fun more => by rw [List.append_assoc]; exact misfit _⟩
    · rw [ran] at failed
      obtain ⟨used, nodes, rfl, placed, holds⟩ := takes.gives ran
      obtain ⟨message, same, misfit⟩ := (further value nodes holds).fails failed
      exact ⟨message, same, fun more => by rw [List.append_assoc]; exact placed.misfit (misfit more)⟩

theorem Takes.map {first : Rebuild α} {change : α → β} {changed : β → List Node → Prop} (takes : Takes first slots made)
    (holds : ∀ value nodes, made value nodes → changed (change value) nodes) :
    Takes (first >>= fun value => Pure.pure (change value)) slots changed := by
  rw [← List.append_nil slots]
  exact takes.bind fun value nodes same => .pure (by rw [List.append_nil]; exact holds value nodes same)

def Reads (slot : Slot) (read : Node → Except Error α) (inject : α → Node) : Prop :=
  ∀ part, match read part with
    | .ok value => slot.place? part = some (inject value)
    | .error error => slot.place? part = none ∧ error = Node.unexpected slot.name part

variable {read : Node → Except Error α} {inject : α → Node}

theorem Reads.next (reads : Reads slot read inject) :
    Takes (next read) [slot] fun value nodes => nodes = [inject value] where
  gives {parts value rest} given := by
    cases parts with
    | nil => cases given
    | cons part parts =>
      have same := reads part
      rw [Rebuild.next, bind_eq_ok_iff] at given
      obtain ⟨found, ran, given⟩ := given
      cases given
      rw [ran] at same
      exact ⟨[part], [inject value], rfl, .cons same .nil, rfl⟩
  fails {parts error} failed := by
    cases parts with
    | nil =>
      cases failed
      exact ⟨_, rfl, fun more => .missing slot more⟩
    | cons part parts =>
      have same := reads part
      rcases ran : read part with found | value
      · rw [Rebuild.next, ran] at failed
        cases failed
        rw [ran] at same
        exact ⟨_, same.right, fun more => .refused (by rw [Slot.takes, same.left]; rfl) more parts⟩
      · rw [Rebuild.next, ran] at failed
        cases failed

theorem Reads.nextAll (reads : Reads slot read inject) (old : List β) :
    Takes (nextAll read old) (List.replicate old.length slot) fun values nodes =>
      values.length = old.length ∧ nodes = values.map inject := by
  induction old with
  | nil => exact .pure ⟨rfl, rfl⟩
  | cons first old ih =>
    refine reads.next.bind fun value nodes placed => ih.map fun values more same => ?_
    obtain ⟨length, rfl⟩ := same
    subst placed
    exact ⟨congrArg Nat.succ length, rfl⟩

theorem Reads.nextIf (reads : Reads slot read inject) (old : Option β) :
    Takes (nextIf read old) (List.replicate old.toList.length slot) fun value nodes =>
      value.toList.length = old.toList.length ∧ nodes = value.toList.map inject := by
  cases old with
  | none => exact .pure ⟨rfl, rfl⟩
  | some first => exact reads.next.map fun value nodes placed => ⟨rfl, placed⟩

theorem reads_importEntry : Reads .importEntry Node.toImport .importEntry := by
  intro part
  cases part <;> first | rfl | exact ⟨rfl, rfl⟩

theorem reads_decl : Reads .decl Node.toDecl .decl := by
  intro part
  cases part <;> first | rfl | exact ⟨rfl, rfl⟩

theorem reads_parameter : Reads .parameter Node.toParameter .parameter := by
  intro part
  cases part <;> first | rfl | exact ⟨rfl, rfl⟩

theorem reads_property : Reads .property Node.toProperty .property := by
  intro part
  cases part <;> first | rfl | exact ⟨rfl, rfl⟩

theorem reads_stmt : Reads .stmt Node.toStmt .stmt := by
  intro part
  cases part with
  | expr value => cases value <;> first | rfl | exact ⟨rfl, rfl⟩
  | _ => first | rfl | exact ⟨rfl, rfl⟩

theorem reads_scope : Reads .scope Node.toScope fun lines => .stmt (.block lines) := by
  intro part
  cases part with
  | stmt line => cases line <;> first | rfl | exact ⟨rfl, rfl⟩
  | _ => exact ⟨rfl, rfl⟩

theorem reads_expr : Reads .expr Node.toExpr .expr := by
  intro part
  cases part with
  | stmt line => cases line <;> first | rfl | exact ⟨rfl, rfl⟩
  | _ => first | rfl | exact ⟨rfl, rfl⟩

end Rebuild

open Rebuild

theorem Stmt.takes_rebuild (line : Stmt) :
    Takes line.rebuild line.slots fun result nodes =>
      result.frame = line.frame ∧ result.slots = line.slots ∧ result.children = nodes := by
  cases line with
  | declare name type value =>
    refine (reads_expr.nextIf value).map fun found nodes placed => ?_
    obtain ⟨length, rfl⟩ := placed
    exact ⟨rfl, by rw [slots, length, slots], rfl⟩
  | assign target value =>
    refine reads_expr.next.bind fun first nodes placed => reads_expr.next.map fun second more placedNext => ?_
    subst placed placedNext
    exact ⟨rfl, rfl, rfl⟩
  | branch condition thenBranch elseBranch =>
    refine reads_expr.next.bind fun first nodes placed => reads_stmt.next.bind fun second more placedNext =>
      (reads_stmt.nextIf elseBranch).map fun third rest placedLast => ?_
    obtain ⟨length, rfl⟩ := placedLast
    subst placed placedNext
    exact ⟨rfl, by rw [slots, length, slots], rfl⟩
  | call callee args type =>
    refine reads_expr.next.bind fun first nodes placed => (reads_expr.nextAll args).map fun found more placedNext => ?_
    obtain ⟨length, rfl⟩ := placedNext
    subst placed
    exact ⟨rfl, by rw [slots, length, slots], rfl⟩
  | block lines =>
    refine (reads_stmt.nextAll lines).map fun found nodes placed => ?_
    obtain ⟨length, rfl⟩ := placed
    exact ⟨rfl, by rw [slots, length, slots], rfl⟩

theorem Expr.takes_rebuild (value : Expr) :
    Takes value.rebuild value.slots fun result nodes =>
      result.frame = value.frame ∧ result.slots = value.slots ∧ result.children = nodes := by
  cases value with
  | call callee args type =>
    refine reads_expr.next.bind fun first nodes placed => (reads_expr.nextAll args).map fun found more placedNext => ?_
    obtain ⟨length, rfl⟩ := placedNext
    subst placed
    exact ⟨rfl, by rw [slots, length, slots], rfl⟩
  | arithmetic operator left right type | index base position type =>
    refine reads_expr.next.bind fun first nodes placed => reads_expr.next.map fun second more placedNext => ?_
    subst placed placedNext
    exact ⟨rfl, rfl, rfl⟩
  | property base name type =>
    refine reads_expr.next.map fun first nodes placed => ?_
    subst placed
    exact ⟨rfl, rfl, rfl⟩
  | _ => exact .pure ⟨rfl, rfl, rfl⟩

theorem Node.takes_rebuild (node : Node) :
    Takes node.rebuild node.slots fun result nodes =>
      result.frame = node.frame ∧ result.slots = node.slots ∧ result.children = nodes := by
  match node with
  | .program ⟨imports, decls⟩ =>
    refine (reads_importEntry.nextAll imports).bind fun entries nodes placed =>
      (reads_decl.nextAll decls).map fun found more placedNext => ?_
    obtain ⟨length, rfl⟩ := placed
    obtain ⟨lengthNext, rfl⟩ := placedNext
    exact ⟨rfl, by simp only [slots, length, lengthNext], rfl⟩
  | .decl (.function declaration) =>
    refine (reads_parameter.nextAll declaration.params).bind fun params nodes placed =>
      reads_scope.next.map fun body more placedNext => ?_
    obtain ⟨length, rfl⟩ := placed
    subst placedNext
    exact ⟨rfl, by simp only [slots, length], rfl⟩
  | .decl (.object declaration) =>
    refine (reads_property.nextAll declaration.properties).map fun properties nodes placed => ?_
    obtain ⟨length, rfl⟩ := placed
    exact ⟨rfl, by simp only [slots, length], rfl⟩
  | .importEntry _ | .parameter _ | .property _ => exact .pure ⟨rfl, rfl, rfl⟩
  | .stmt line => exact line.takes_rebuild.map fun result nodes same => ⟨congrArg Node.Frame.stmt same.left, same.right⟩
  | .expr value =>
    exact value.takes_rebuild.map fun result nodes same => ⟨congrArg Node.Frame.expr same.left, same.right⟩

section Lens

variable (node : Node) (parts : List Node)

/-- Either parts stand in the slots of a node and everything else about it stays, or they do not fit. -/
theorem Node.placed_or_misfit :
    (∃ result, node.withChildren parts = .ok result ∧ result.frame = node.frame ∧ result.slots = node.slots ∧
        Placed node.slots parts result.children) ∨
      ∃ message, node.withChildren parts = .error (.malformed message) ∧ Misfit node.slots parts message := by
  rcases ran : node.rebuild parts with error | ⟨result, rest⟩
  · obtain ⟨message, rfl, misfit⟩ := node.takes_rebuild.fails ran
    have fails := misfit []
    rw [List.append_nil] at fails
    exact .inr ⟨message, by rw [withChildren, ran]; rfl, fails⟩
  · obtain ⟨used, _, rfl, placed, frame, slots, rfl⟩ := node.takes_rebuild.gives ran
    cases rest with
    | nil =>
      rw [List.append_nil] at ran ⊢
      exact .inl ⟨result, by rw [withChildren, ran]; rfl, frame, slots, placed⟩
    | cons extra rest =>
      have fails := placed.misfit (.extra extra rest)
      rw [List.append_nil] at fails
      exact .inr ⟨_, by rw [withChildren, ran]; rfl, fails⟩

variable {node parts}

theorem Node.withChildren_eq_ok_iff {result : Node} :
    node.withChildren parts = .ok result ↔
      result.frame = node.frame ∧ result.slots = node.slots ∧ Placed node.slots parts result.children := by
  rcases node.placed_or_misfit parts with ⟨made, ran, frame, slots, placed⟩ | ⟨message, failed, misfit⟩
  · rw [ran]
    constructor
    · intro same
      cases same
      exact ⟨frame, slots, placed⟩
    · rintro ⟨sameFrame, sameSlots, placedAgain⟩
      exact congrArg Except.ok
        (eq_of_children (frame.trans sameFrame.symm) (slots.trans sameSlots.symm) (placed.unique placedAgain))
  · rw [failed]
    exact ⟨nofun, fun ⟨_, _, placed⟩ => absurd placed.takes misfit.not_takes⟩

theorem Node.withChildren_eq_error_iff {error : Error} :
    node.withChildren parts = .error error ↔ ∃ message, error = .malformed message ∧ Misfit node.slots parts message := by
  rcases node.placed_or_misfit parts with ⟨made, ran, _, _, placed⟩ | ⟨message, failed, misfit⟩
  · rw [ran]
    exact ⟨nofun, fun ⟨_, _, misfit⟩ => absurd placed.takes misfit.not_takes⟩
  · rw [failed]
    constructor
    · intro same
      cases same
      exact ⟨message, rfl, misfit⟩
    · rintro ⟨other, rfl, again⟩
      rw [misfit.unique again]

/-- The parts of a node and putting parts into a node are inverse to each other. A node takes its own parts back and is
the node it was. It takes other parts exactly if there are as many as it has and each is of the sort that its slot asks
for; the result is the one node of the same kind and with the same other fields whose parts are these, a call perhaps
read as the other sort. Any other parts give an error about the first of them that is missing, is of a wrong sort, or is
left over. -/
theorem Node.withChildren_lens (node : Node) :
    node.withChildren node.children = .ok node ∧ node.slots.length = node.children.length ∧
      ∀ parts : List Node,
        ((∃ result, node.withChildren parts = .ok result) ↔
          List.Forall₂ (fun slot part => slot.takes part = true) node.slots parts) ∧
        (∀ result, node.withChildren parts = .ok result ↔
          List.Forall₂ (fun slot part => slot.takes part = true) node.slots parts ∧ result.kind = node.kind ∧
            result.frame = node.frame ∧ result.slots = node.slots ∧
            List.Forall₂ Node.StandsFor result.children parts) ∧
        ∀ error, node.withChildren parts = .error error ↔
          ∃ message, error = .malformed message ∧ Misfit node.slots parts message := by
  have whole (parts : List Node) (result : Node) :
      node.withChildren parts = .ok result ↔
        List.Forall₂ (fun slot part => slot.takes part = true) node.slots parts ∧ result.kind = node.kind ∧
          result.frame = node.frame ∧ result.slots = node.slots ∧ List.Forall₂ Node.StandsFor result.children parts := by
    rw [withChildren_eq_ok_iff]
    constructor
    · rintro ⟨frame, slots, placed⟩
      exact ⟨placed.takes, kind_of_frame frame, frame, slots, placed.standsFor⟩
    · rintro ⟨takes, _, frame, slots, stand⟩
      exact ⟨frame, slots, placed_of_standsFor (slots ▸ result.place?_children) stand takes⟩
  refine ⟨node.withChildren_children, node.place?_children.length_eq, fun parts => ⟨⟨?_, fun takes => ?_⟩, whole parts,
    fun error => withChildren_eq_error_iff⟩⟩
  · rintro ⟨result, ran⟩
    exact ((whole parts result).mp ran).left
  · rcases node.placed_or_misfit parts with ⟨result, ran, _⟩ | ⟨_, _, misfit⟩
    · exact ⟨result, ran⟩
    · exact absurd takes misfit.not_takes

end Lens

end TypedTree
