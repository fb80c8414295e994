import TypedTree.Proofs.Tree.Lens
import TypedTree.Proofs.Tree.Stops
/-! Nodes with other parts in place of their own. A node can be given any parts that are as many as its own and of
the same sorts; everything else that makes up the node stays. -/

namespace TypedTree

section Sorts

/-- Nodes of one kind and one sort: a call that is a statement is not like one that is an expression. -/
inductive Node.Alike : Node → Node → Prop where
  | program (program other : Program) : Alike (.program program) (.program other)
  | importEntry (entry other : Import) : Alike (.importEntry entry) (.importEntry other)
  | function (declaration other : FunctionDecl) : Alike (.decl (.function declaration)) (.decl (.function other))
  | object (declaration other : ObjectDecl) : Alike (.decl (.object declaration)) (.decl (.object other))
  | parameter (named other : TypedName) : Alike (.parameter named) (.parameter other)
  | property (named other : TypedName) : Alike (.property named) (.property other)
  | stmt {line other : Stmt} (same : line.kind = other.kind) : Alike (.stmt line) (.stmt other)
  | expr {value other : Expr} (same : value.kind = other.kind) : Alike (.expr value) (.expr other)

/-- Nodes that are alike and have the same parts, so that only other fields can differ. An import has the same
program. -/
structure Node.Keeps (node other : Node) : Prop where
  alike : node.Alike other
  children : node.children = other.children
  shared : node.shared? = other.shared?

/-- The node is the other one with other parts in place of its own. An import has the path and the identity of
the other one. -/
def Node.Fills (node frame : Node) : Prop :=
  match node, frame with
  | .importEntry entry, .importEntry other =>
    entry.path = other.path ∧ entry.target.map Module.id = other.target.map Module.id
  | node, frame => frame.withChildren node.children = .ok node

variable {node other third : Node}

theorem Node.Alike.refl (node : Node) : node.Alike node := by
  match node with
  | .program _ | .importEntry _ | .parameter _ | .property _ => constructor
  | .decl (.function _) | .decl (.object _) => constructor
  | .stmt _ => exact .stmt rfl
  | .expr _ => exact .expr rfl

theorem Node.Alike.trans (first : node.Alike other) (second : other.Alike third) : node.Alike third := by
  cases first with
  | stmt same => cases second with | stmt further => exact .stmt (same.trans further)
  | expr same => cases second with | expr further => exact .expr (same.trans further)
  | _ => cases second; constructor

theorem Node.Alike.kind (alike : node.Alike other) : node.kind = other.kind := by
  cases alike with
  | stmt same => exact same
  | expr same => exact same
  | _ => rfl

theorem Node.Keeps.refl (node : Node) : node.Keeps node := ⟨.refl node, rfl, rfl⟩

theorem Node.fills_self (node : Node) : node.Fills node := by
  unfold Fills
  split
  · exact ⟨rfl, rfl⟩
  · exact node.withChildren_children

theorem Node.program_of_alike {program : Program} (alike : node.Alike (.program program)) :
    ∃ found, node = .program found := by
  cases alike
  exact ⟨_, rfl⟩

end Sorts

section Parts

theorem Slot.place?_of_alike {slot : Slot} {node part : Node} (holds : slot.place? part = some part)
    (alike : node.Alike part) : slot.place? node = some node := by
  cases alike with
  | @stmt line other same =>
    cases slot with
    | stmt => rfl
    | scope =>
      cases other with
      | block lines => cases line <;> first | rfl | cases same
      | _ => cases holds
    | _ => cases other <;> cases holds
  | @expr value other same =>
    cases slot with
    | expr => rfl
    | _ => cases other <;> cases holds
  | _ => cases slot <;> first | rfl | cases holds

theorem placed_of_alike {slots : List Slot} {parts nodes : List Node}
    (holds : List.Forall₂ (fun slot node => slot.place? node = some node) slots nodes)
    (alike : List.Forall₂ Node.Alike parts nodes) : Placed slots parts parts := by
  induction holds generalizing parts with
  | nil =>
    cases alike
    exact .nil
  | cons first _ ih =>
    cases alike with
    | cons same others => exact .cons (Slot.place?_of_alike first same) (ih others)

theorem Node.alike_of_frame {node other : Node} (same : node.frame = other.frame) : node.Alike other := by
  match node, other with
  | .program _, .program _ | .importEntry _, .importEntry _ => constructor
  | .decl (.function _), .decl (.function _) | .decl (.object _), .decl (.object _) => constructor
  | .parameter _, .parameter _ | .property _, .property _ => constructor
  | .stmt _, .stmt _ => exact .stmt (Stmt.kind_of_frame (Node.Frame.stmt.inj same))
  | .expr _, .expr _ => exact .expr (Expr.kind_of_frame (Node.Frame.expr.inj same))

theorem Node.refill (node : Node) {parts : List Node} (alike : List.Forall₂ Alike parts node.children) :
    ∃ result : Node, result.children = parts ∧ result.Alike node ∧ result.shared? = node.shared? ∧
      result.Fills node ∧ node.withChildren parts = .ok result := by
  have placed : Placed node.slots parts parts := placed_of_alike node.place?_children alike
  rcases node.placed_or_misfit parts with ⟨result, ran, frame, -, stands⟩ | ⟨_, -, misfit⟩
  · have children : result.children = parts := stands.unique placed
    have put : node.withChildren result.children = .ok result := children ▸ ran
    have alike := alike_of_frame frame
    refine ⟨result, children, alike, ?_⟩
    cases alike with
    | importEntry entry other =>
      cases frame
      exact ⟨rfl, fills_self _, ran⟩
    | _ => exact ⟨rfl, put, ran⟩
  · exact absurd placed.takes misfit.not_takes

end Parts

end TypedTree
