import TypedTree.Tree.Node
import TypedTree.Table
/-! Walking a tree in pre-order and replacing nodes on the way: a parent before its parts, the parts
from left to right, imports before declarations. The parts of a replaced node are those of its
replacement, and have it as their parent. A shared program is walked once, and all its imports get the
same result. -/

namespace TypedTree

inductive VisitError where
  | failed (error : Error)
  /-- The tree, with what the handler puts into it, is deeper than the walk may go. -/
  | tooDeep
deriving DecidableEq

/-- Replaces a node below the given parent. The state of a handler outlives its failure. -/
abbrev Handler (σ : Type) := Node → (parent : Option Node) → σ → Except Error Node × σ

/-- What a walk carries along: the state of the handler, and the shared programs walked so far, by the
identity of the program they replace. -/
structure WalkState (σ : Type) where
  handler : σ
  shared : Table Nat Program := .empty

abbrev Walk (σ α : Type) := WalkState σ → Except VisitError α × WalkState σ

namespace Walk

variable {σ α β : Type}

def ofExcept (result : Except Error α) : Walk σ α := fun state =>
  match result with
  | .ok value => (.ok value, state)
  | .error error => (.error (.failed error), state)

def andThen (first : Walk σ α) (next : α → Walk σ β) : Walk σ β := fun state =>
  match first state with
  | (.ok value, state) => next value state
  | (.error error, state) => (.error error, state)

def all (step : α → Walk σ β) : List α → Walk σ (List β)
  | [] => fun state => (.ok [], state)
  | value :: values =>
    (step value).andThen fun first =>
      (all step values).andThen fun rest => fun state => (.ok (first :: rest), state)

def handle (kinds : List NodeKind) (handler : Handler σ) (node : Node) (parent : Option Node) :
    Walk σ Node := fun state =>
  if kinds.contains node.kind then
    match handler node parent state.handler with
    | (.ok replaced, inner) => (.ok replaced, { state with handler := inner })
    | (.error error, inner) => (.error (.failed error), { state with handler := inner })
  else (.ok node, state)

end Walk

open Walk in
/-- Walks a tree of which at most `depth` levels are visited. -/
def walk {σ : Type} (kinds : List NodeKind) (handler : Handler σ) :
    (depth : Nat) → Node → (parent : Option Node) → Walk σ Node
  | 0, _, _ => fun state => (.error .tooDeep, state)
  | depth + 1, node, parent =>
    (handle kinds handler node parent).andThen fun node =>
      if !node.mayContain kinds then ofExcept (.ok node)
      else
        match node with
        | .importEntry entry =>
          match entry.target with
          | none => ofExcept (.ok node)
          | some shared =>
            fun state =>
              match state.shared.find? shared.id with
              | some walked => (.ok (.importEntry ⟨entry.path, some ⟨shared.id, walked⟩⟩), state)
              | none =>
                ((walk kinds handler depth (.program shared.program) (some node)).andThen
                  fun walked => (ofExcept walked.toProgram).andThen fun program => fun state =>
                    (.ok (.importEntry ⟨entry.path, some ⟨shared.id, program⟩⟩),
                      { state with shared := state.shared.insert shared.id program })) state
        | _ =>
          (all (fun child => walk kinds handler depth child (some node)) node.children).andThen
            fun children => ofExcept (node.withChildren children)

/-- Replaces every node of the kinds in a tree by what the handler makes of it. -/
def visit {σ : Type} (depth : Nat) (kinds : List NodeKind) (handler : Handler σ) (tree : Node)
    (parent : Option Node) (state : σ) : Except VisitError Node × σ :=
  let walked := walk kinds handler depth tree parent { handler := state }
  (walked.1, walked.2.handler)

end TypedTree
