import Mathlib.Data.List.Forall2
import TypedTree.Proofs.Tree.Children
/-! Slots for the parts of a node, and its frame, which is what makes up the node besides its parts. A slot takes parts
of one sort. Parts fit into slots if there is one for each slot and each is of the sort that its slot asks for. -/

namespace TypedTree

section Sorts

/-- What a node asks for where it has a part. -/
inductive Slot where
  | importEntry
  | decl
  | parameter
  | property
  | stmt
  | scope
  | expr

namespace Slot

def name : Slot → String
  | importEntry => "import"
  | decl => "declaration"
  | parameter => "parameter"
  | property => "property"
  | stmt => "statement"
  | scope => "scope"
  | expr => "expression"

def place? : Slot → Node → Option Node
  | importEntry, .importEntry entry => some (.importEntry entry)
  | decl, .decl declared => some (.decl declared)
  | parameter, .parameter named => some (.parameter named)
  | property, .property named => some (.property named)
  | stmt, .stmt line => some (.stmt line)
  | stmt, .expr (.call callee args type) => some (.stmt (.call callee args type))
  | scope, .stmt (.block lines) => some (.stmt (.block lines))
  | expr, .expr value => some (.expr value)
  | expr, .stmt (.call callee args type) => some (.expr (.call callee args type))
  | _, _ => none

def takes (slot : Slot) (part : Node) : Bool := (slot.place? part).isSome

end Slot

/-- A node is a part, or the same call as a part of the other sort. -/
inductive Node.StandsFor : Node → Node → Prop where
  | same (node : Node) : StandsFor node node
  | asStmt (callee : Expr) (args : List Expr) (type : Option Ty) :
    StandsFor (.stmt (.call callee args type)) (.expr (.call callee args type))
  | asExpr (callee : Expr) (args : List Expr) (type : Option Ty) :
    StandsFor (.expr (.call callee args type)) (.stmt (.call callee args type))

variable {slot : Slot} {part node : Node}

theorem Slot.standsFor_of_place? (placed : slot.place? part = some node) : node.StandsFor part := by
  unfold place? at placed
  split at placed <;> cases placed
  case h_6 => exact .asStmt _ _ _
  case h_9 => exact .asExpr _ _ _
  all_goals exact .same _

theorem Slot.place?_of_standsFor (holds : slot.place? node = some node) (stands : node.StandsFor part)
    (takes : slot.takes part = true) : slot.place? part = some node := by
  cases stands with
  | same => exact holds
  | asStmt callee args type => cases slot <;> simp_all [place?, Slot.takes]
  | asExpr callee args type => cases slot <;> simp_all [place?, Slot.takes]

end Sorts

section Forms

def Stmt.slots : Stmt → List Slot
  | .declare _ _ value => List.replicate value.toList.length .expr
  | .assign _ _ => [.expr, .expr]
  | .branch _ _ elseBranch => .expr :: .stmt :: List.replicate elseBranch.toList.length .stmt
  | .call _ args _ => .expr :: List.replicate args.length .expr
  | .block lines => List.replicate lines.length .stmt

def Expr.slots : Expr → List Slot
  | .call _ args _ => .expr :: List.replicate args.length .expr
  | .arithmetic .. | .index .. => [.expr, .expr]
  | .property .. => [.expr]
  | .var .. | .string .. | .int .. | .bool .. | .real .. => []

def Node.slots : Node → List Slot
  | .program tree => List.replicate tree.imports.length .importEntry ++ List.replicate tree.decls.length .decl
  | .decl (.function declaration) => List.replicate declaration.params.length .parameter ++ [.scope]
  | .decl (.object declaration) => List.replicate declaration.properties.length .property
  | .importEntry _ | .parameter _ | .property _ => []
  | .stmt line => line.slots
  | .expr value => value.slots

/-- What makes up a statement besides its parts: its form, and the fields that hold no part. -/
inductive Stmt.Frame where
  | declare (name : String) (type : Ty)
  | assign
  | branch
  | call (type : Option Ty)
  | block

inductive Expr.Frame where
  | call (type : Option Ty)
  | arithmetic (operator : Operator) (type : Option Ty)
  | index (type : Option Ty)
  | property (name : String) (type : Option Ty)
  | leaf (value : Expr)

inductive Node.Frame where
  | program
  | importEntry (entry : Import)
  | function (exported : Bool) (name : String) (returns : Ty)
  | object (exported : Bool) (name : String)
  | parameter (named : TypedName)
  | property (named : TypedName)
  | stmt (frame : Stmt.Frame)
  | expr (frame : Expr.Frame)

def Stmt.frame : Stmt → Stmt.Frame
  | .declare name type _ => .declare name type
  | .assign _ _ => .assign
  | .branch _ _ _ => .branch
  | .call _ _ type => .call type
  | .block _ => .block

def Expr.frame : Expr → Expr.Frame
  | .call _ _ type => .call type
  | .arithmetic operator _ _ type => .arithmetic operator type
  | .index _ _ type => .index type
  | .property _ name type => .property name type
  | leaf => .leaf leaf

def Node.frame : Node → Node.Frame
  | .program _ => .program
  | .importEntry entry => .importEntry entry
  | .decl (.function declaration) => .function declaration.exported declaration.name declaration.returns
  | .decl (.object declaration) => .object declaration.exported declaration.name
  | .parameter named => .parameter named
  | .property named => .property named
  | .stmt line => .stmt line.frame
  | .expr value => .expr value.frame

theorem Stmt.kind_of_frame {line other : Stmt} (same : line.frame = other.frame) : line.kind = other.kind := by
  cases line <;> cases other <;> first | rfl | cases same

theorem Expr.kind_of_frame {value other : Expr} (same : value.frame = other.frame) : value.kind = other.kind := by
  cases value <;> cases other <;> first | rfl | cases same

theorem Node.kind_of_frame {node other : Node} (same : node.frame = other.frame) : node.kind = other.kind := by
  match node, other with
  | .program _, .program _ | .importEntry _, .importEntry _ => rfl
  | .decl (.function _), .decl (.function _) | .decl (.object _), .decl (.object _) => rfl
  | .parameter _, .parameter _ | .property _, .property _ => rfl
  | .stmt line, .stmt other => exact Stmt.kind_of_frame (Node.Frame.stmt.inj same)
  | .expr value, .expr other => exact Expr.kind_of_frame (Node.Frame.expr.inj same)

theorem Stmt.eq_of_children {line other : Stmt} (frames : line.frame = other.frame)
    (parts : line.children = other.children) : line = other := by
  cases line <;> cases other <;> cases frames
  case declare.declare.refl value other => cases value <;> cases other <;> simp_all [children]
  case branch.branch.refl elseBranch _ _ other => cases elseBranch <;> cases other <;> simp_all [children]
  all_goals simp_all [children, List.map_inj_right]

theorem Expr.eq_of_children {value other : Expr} (frames : value.frame = other.frame)
    (parts : value.children = other.children) : value = other := by
  cases value <;> cases other <;> cases frames <;> simp_all [children, List.map_inj_right]

theorem Node.eq_of_children {node other : Node} (frames : node.frame = other.frame)
    (slots : node.slots = other.slots) (parts : node.children = other.children) : node = other := by
  match node, other with
  | .program ⟨imports, decls⟩, .program ⟨entries, others⟩ =>
    have lengths : imports.length = entries.length := by
      have counts := congrArg (List.countP fun slot => slot matches .importEntry) slots
      simpa [Node.slots, List.countP_append, List.countP_replicate] using counts
    obtain ⟨first, second⟩ := List.append_inj parts (by simpa using lengths)
    simp_all [List.map_inj_right]
  | .decl (.function declaration), .decl (.function other) =>
    obtain ⟨params, body⟩ := List.append_inj' parts rfl
    cases declaration
    cases other
    simp_all [frame, List.map_inj_right]
  | .decl (.object declaration), .decl (.object other) =>
    cases declaration
    cases other
    simp_all [frame, children, List.map_inj_right]
  | .importEntry _, .importEntry _ | .parameter _, .parameter _ | .property _, .property _ =>
    cases frames
    rfl
  | .stmt line, .stmt other => rw [Stmt.eq_of_children (Node.Frame.stmt.inj frames) parts]
  | .expr value, .expr other => rw [Expr.eq_of_children (Node.Frame.expr.inj frames) parts]

theorem place?_map {α : Type} {slot : Slot} {inject : α → Node}
    (holds : ∀ value, slot.place? (inject value) = some (inject value)) (values : List α) :
    List.Forall₂ (fun slot part => slot.place? part = some part) (List.replicate values.length slot)
      (values.map inject) := by
  induction values with
  | nil => exact .nil
  | cons value values ih => exact .cons (holds value) ih

theorem Stmt.place?_children (line : Stmt) :
    List.Forall₂ (fun slot part => slot.place? part = some part) line.slots line.children := by
  cases line with
  | declare name type value => exact place?_map (fun _ => rfl) value.toList
  | assign target value => exact .cons rfl (.cons rfl .nil)
  | branch condition thenBranch elseBranch => exact .cons rfl (.cons rfl (place?_map (fun _ => rfl) elseBranch.toList))
  | call callee args type => exact .cons rfl (place?_map (fun _ => rfl) args)
  | block lines => exact place?_map (fun _ => rfl) lines

theorem Expr.place?_children (value : Expr) :
    List.Forall₂ (fun slot part => slot.place? part = some part) value.slots value.children := by
  cases value with
  | call callee args type => exact .cons rfl (place?_map (fun _ => rfl) args)
  | arithmetic operator left right type | index left right type => exact .cons rfl (.cons rfl .nil)
  | property base name type => exact .cons rfl .nil
  | _ => exact .nil

theorem Node.place?_children (node : Node) :
    List.Forall₂ (fun slot part => slot.place? part = some part) node.slots node.children := by
  match node with
  | .program ⟨imports, decls⟩ =>
    exact List.rel_append (place?_map (fun _ => rfl) imports) (place?_map (fun _ => rfl) decls)
  | .decl (.function declaration) =>
    exact List.rel_append (place?_map (fun _ => rfl) declaration.params) (.cons rfl .nil)
  | .decl (.object declaration) => exact place?_map (fun _ => rfl) declaration.properties
  | .importEntry _ | .parameter _ | .property _ => exact .nil
  | .stmt line => exact line.place?_children
  | .expr value => exact value.place?_children

end Forms

section Filling

/-- Parts that fit into slots, one after another, and what stands in the slots then. -/
inductive Placed : List Slot → List Node → List Node → Prop where
  | nil : Placed [] [] []
  | cons {slot : Slot} {slots : List Slot} {part node : Node} {parts nodes : List Node}
    (first : slot.place? part = some node) (others : Placed slots parts nodes) :
    Placed (slot :: slots) (part :: parts) (node :: nodes)

/-- Parts do not fit into slots, for the reason given by a message about the first that does not. -/
inductive Misfit : List Slot → List Node → String → Prop where
  | missing (slot : Slot) (slots : List Slot) : Misfit (slot :: slots) [] "missing child node"
  | extra (part : Node) (parts : List Node) :
    Misfit [] (part :: parts) ("unexpected extra child " ++ part.kind.name)
  | refused {slot : Slot} {part : Node} (refused : slot.takes part = false) (slots : List Slot) (parts : List Node) :
    Misfit (slot :: slots) (part :: parts) ("expected " ++ slot.name ++ ", found " ++ part.kind.name)
  | later {slot : Slot} {part : Node} {slots : List Slot} {parts : List Node} {message : String}
    (taken : slot.takes part = true) (misfit : Misfit slots parts message) :
    Misfit (slot :: slots) (part :: parts) message

variable {slots others : List Slot} {parts nodes : List Node} {message : String}

theorem Placed.append {more found : List Node} (placed : Placed slots parts nodes) (behind : Placed others more found) :
    Placed (slots ++ others) (parts ++ more) (nodes ++ found) := by
  induction placed with
  | nil => exact behind
  | cons first _ ih => exact .cons first ih

theorem Placed.takes (placed : Placed slots parts nodes) :
    List.Forall₂ (fun slot part => slot.takes part = true) slots parts := by
  induction placed with
  | nil => exact .nil
  | cons first _ ih => exact .cons (by rw [Slot.takes, first]; rfl) ih

theorem Placed.standsFor (placed : Placed slots parts nodes) : List.Forall₂ Node.StandsFor nodes parts := by
  induction placed with
  | nil => exact .nil
  | cons first _ ih => exact .cons (Slot.standsFor_of_place? first) ih

theorem placed_of_standsFor (holds : List.Forall₂ (fun slot node => slot.place? node = some node) slots nodes)
    (stand : List.Forall₂ Node.StandsFor nodes parts)
    (takes : List.Forall₂ (fun slot part => slot.takes part = true) slots parts) : Placed slots parts nodes := by
  induction holds generalizing parts with
  | nil =>
    cases stand
    exact .nil
  | cons first _ ih =>
    cases stand with
    | cons same others =>
      cases takes with
      | cons taken rest => exact .cons (Slot.place?_of_standsFor first same taken) (ih others rest)

theorem Placed.unique {found : List Node} (placed : Placed slots parts nodes) (again : Placed slots parts found) :
    nodes = found := by
  induction placed generalizing found with
  | nil => cases again; rfl
  | cons first _ ih =>
    cases again with
    | cons same others =>
      cases first.symm.trans same
      rw [ih others]

theorem Misfit.not_takes (misfit : Misfit slots parts message) :
    ¬ List.Forall₂ (fun slot part => slot.takes part = true) slots parts := by
  induction misfit with
  | missing | extra => nofun
  | refused refused =>
    rintro (_ | ⟨taken, _⟩)
    cases refused.symm.trans taken
  | later _ _ ih =>
    rintro (_ | ⟨_, rest⟩)
    exact ih rest

theorem Misfit.unique {other : String} (misfit : Misfit slots parts message) (again : Misfit slots parts other) :
    message = other := by
  induction misfit with
  | missing | extra => cases again; rfl
  | refused refused =>
    cases again with
    | refused => rfl
    | later taken => cases refused.symm.trans taken
  | later taken _ ih =>
    cases again with
    | refused refused => cases refused.symm.trans taken
    | later _ rest => exact ih rest

theorem Placed.misfit {more : List Node} (placed : Placed slots parts nodes) (misfit : Misfit others more message) :
    Misfit (slots ++ others) (parts ++ more) message := by
  induction placed with
  | nil => exact misfit
  | cons first _ ih => exact .later (by rw [Slot.takes, first]; rfl) ih

end Filling

end TypedTree
