import TypedTree.Tree.Node
/-! A node put together again from its own parts is the node it was, and every part is smaller. -/

namespace TypedTree

namespace Rebuild

variable {α β : Type}

theorem bind_apply (step : Rebuild α) (next : α → Rebuild β) (nodes : List Node) :
    (step >>= next) nodes = step nodes >>= fun taken => next taken.1 taken.2 := rfl

theorem nextAll_map_of_length (read : Node → Except Error α) (inject : α → Node)
    (fits : ∀ value, read (inject value) = .ok value) {old : List β} {values : List α}
    (same : values.length = old.length) (rest : List Node) :
    nextAll read old (values.map inject ++ rest) = .ok (values, rest) := by
  induction values generalizing old with
  | nil =>
    rw [List.length_eq_zero_iff.mp same.symm]
    rfl
  | cons value values others =>
    obtain ⟨former, old, rfl⟩ := List.exists_cons_of_length_eq_add_one same.symm
    have first : next read (inject value :: (values.map inject ++ rest)) =
        .ok (value, values.map inject ++ rest) := by
      rw [next, fits]
      rfl
    rw [nextAll, List.map_cons, List.cons_append, bind_apply, first]
    change nextAll read old (values.map inject ++ rest) >>= _ = _
    rw [others (Nat.succ.inj same)]
    rfl

theorem nextAll_map (read : Node → Except Error α) (inject : α → Node)
    (fits : ∀ value, read (inject value) = .ok value) (values : List α) (rest : List Node) :
    nextAll read values (values.map inject ++ rest) = .ok (values, rest) :=
  nextAll_map_of_length read inject fits rfl rest

theorem nextIf_map (read : Node → Except Error α) (inject : α → Node)
    (fits : ∀ value, read (inject value) = .ok value) (value : Option α) (rest : List Node) :
    nextIf read value (value.toList.map inject ++ rest) = .ok (value, rest) := by
  cases value with
  | none => rfl
  | some value =>
    rw [nextIf, bind_apply]
    change next read (inject value :: rest) >>= _ = _
    rw [next, fits]
    rfl

theorem nextAll_exprs (values : List Expr) (rest : List Node) :
    nextAll Node.toExpr values (values.map .expr ++ rest) = .ok (values, rest) :=
  nextAll_map Node.toExpr .expr (fun _ => rfl) values rest

theorem nextAll_stmts (values : List Stmt) (rest : List Node) :
    nextAll Node.toStmt values (values.map .stmt ++ rest) = .ok (values, rest) :=
  nextAll_map Node.toStmt .stmt (fun _ => rfl) values rest

end Rebuild

open Rebuild

theorem Stmt.rebuild_children (stmt : Stmt) (rest : List Node) :
    stmt.rebuild (stmt.children ++ rest) = .ok (stmt, rest) := by
  cases stmt with
  | declare name type value =>
    have taken : nextIf Node.toExpr value (value.toList.map .expr ++ rest) = .ok (value, rest) :=
      nextIf_map Node.toExpr .expr (fun _ => rfl) value rest
    rw [rebuild, children, bind_apply, taken]
    rfl
  | assign target value => rfl
  | branch condition thenBranch elseBranch =>
    have taken : nextIf Node.toStmt elseBranch (elseBranch.toList.map .stmt ++ rest) =
        .ok (elseBranch, rest) := nextIf_map Node.toStmt .stmt (fun _ => rfl) elseBranch rest
    change nextIf Node.toStmt elseBranch (elseBranch.toList.map .stmt ++ rest) >>= _ = _
    rw [taken]
    rfl
  | call callee args type =>
    change nextAll Node.toExpr args (args.map .expr ++ rest) >>= _ = _
    rw [nextAll_exprs]
    rfl
  | block lines =>
    rw [rebuild, children, bind_apply, nextAll_stmts]
    rfl

theorem Expr.rebuild_children (expr : Expr) (rest : List Node) :
    expr.rebuild (expr.children ++ rest) = .ok (expr, rest) := by
  cases expr with
  | call callee args type =>
    change nextAll Node.toExpr args (args.map .expr ++ rest) >>= _ = _
    rw [nextAll_exprs]
    rfl
  | _ => rfl

theorem Node.rebuild_children (node : Node) (rest : List Node) :
    node.rebuild (node.children ++ rest) = .ok (node, rest) := by
  match node with
  | .program ⟨imports, decls⟩ =>
    have entries : nextAll Node.toImport imports (imports.map .importEntry ++ (decls.map .decl ++ rest)) =
        .ok (imports, decls.map .decl ++ rest) := nextAll_map toImport .importEntry (fun _ => rfl) imports _
    have others : nextAll Node.toDecl decls (decls.map .decl ++ rest) = .ok (decls, rest) :=
      nextAll_map toDecl .decl (fun _ => rfl) decls rest
    rw [rebuild, children, List.append_assoc, bind_apply, entries]
    change nextAll Node.toDecl decls (decls.map .decl ++ rest) >>= _ = _
    rw [others]
    rfl
  | .decl (.function declaration) =>
    have params := nextAll_map toParameter .parameter (fun _ => rfl) declaration.params
      (.stmt (.block declaration.body) :: rest)
    rw [rebuild, children, List.append_assoc, bind_apply, List.singleton_append, params]
    rfl
  | .decl (.object declaration) =>
    have properties := nextAll_map toProperty .property (fun _ => rfl) declaration.properties rest
    rw [rebuild, children, bind_apply, properties]
    rfl
  | .importEntry _ | .parameter _ | .property _ => rfl
  | .stmt line =>
    rw [rebuild, children, bind_apply, line.rebuild_children]
    rfl
  | .expr value =>
    rw [rebuild, children, bind_apply, value.rebuild_children]
    rfl

/-- A node takes its own parts back, and is the node it was. -/
theorem Node.withChildren_children (node : Node) : node.withChildren node.children = .ok node := by
  have taken := node.rebuild_children []
  rw [List.append_nil] at taken
  rw [withChildren, taken]
  rfl

theorem Node.withChildren_program {imports entries : List Import} {decls others : List Decl}
    (sameImports : entries.length = imports.length) (sameDecls : others.length = decls.length) :
    (Node.program ⟨imports, decls⟩).withChildren (entries.map .importEntry ++ others.map .decl) =
      .ok (.program ⟨entries, others⟩) := by
  have takenImports := nextAll_map_of_length toImport .importEntry (fun _ => rfl) sameImports (others.map .decl)
  have takenDecls := nextAll_map_of_length toDecl .decl (fun _ => rfl) sameDecls []
  rw [List.append_nil] at takenDecls
  rw [withChildren, rebuild, bind_apply, takenImports]
  change (nextAll toDecl decls (others.map .decl) >>= _) >>= _ = _
  rw [takenDecls]
  rfl

theorem Node.sizeOf_pos (node : Node) : 0 < sizeOf node := by
  cases node <;> exact Nat.add_pos_left Nat.one_pos _

theorem Node.sizeOf_children {node child : Node} (member : child ∈ node.children) :
    sizeOf child < sizeOf node := by
  have inList {α : Type} [SizeOf α] {value : α} {values : List α} (member : value ∈ values) :=
    List.sizeOf_lt_of_mem member
  match node with
  | .program ⟨imports, decls⟩ =>
    simp only [children, List.mem_append, List.mem_map] at member
    rcases member with ⟨entry, member, rfl⟩ | ⟨decl, member, rfl⟩ <;>
    · have := inList member
      simp only [Node.program.sizeOf_spec, Node.importEntry.sizeOf_spec, Node.decl.sizeOf_spec,
        Program.mk.sizeOf_spec]
      omega
  | .decl (.function declaration) =>
    obtain ⟨exported, name, returns, params, body⟩ := declaration
    simp only [children, List.mem_append, List.mem_map, List.mem_singleton] at member
    rcases member with ⟨parameter, member, rfl⟩ | rfl
    · have := inList member
      simp only [Node.decl.sizeOf_spec, Node.parameter.sizeOf_spec, Decl.function.sizeOf_spec,
        FunctionDecl.mk.sizeOf_spec]
      omega
    · simp only [Node.decl.sizeOf_spec, Node.stmt.sizeOf_spec, Decl.function.sizeOf_spec,
        FunctionDecl.mk.sizeOf_spec, Stmt.block.sizeOf_spec]
      omega
  | .decl (.object declaration) =>
    obtain ⟨exported, name, properties⟩ := declaration
    simp only [children, List.mem_map] at member
    obtain ⟨property, member, rfl⟩ := member
    have := inList member
    simp only [Node.decl.sizeOf_spec, Node.property.sizeOf_spec, Decl.object.sizeOf_spec, ObjectDecl.mk.sizeOf_spec]
    omega
  | .importEntry _ | .parameter _ | .property _ => cases member
  | .stmt (.declare name type value) =>
    cases value with
    | none => cases member
    | some value =>
      rw [List.mem_singleton.mp member]
      simp only [Node.stmt.sizeOf_spec, Node.expr.sizeOf_spec, Stmt.declare.sizeOf_spec, Option.some.sizeOf_spec]
      omega
  | .stmt (.assign target value) =>
    simp only [children, Stmt.children, List.mem_cons, List.not_mem_nil, or_false] at member
    rcases member with rfl | rfl <;>
    · simp only [Node.stmt.sizeOf_spec, Node.expr.sizeOf_spec, Stmt.assign.sizeOf_spec]
      omega
  | .stmt (.branch condition thenBranch elseBranch) =>
    simp only [children, Stmt.children, List.mem_cons, List.mem_map] at member
    rcases member with rfl | rfl | ⟨branch, member, rfl⟩
    · simp only [Node.stmt.sizeOf_spec, Node.expr.sizeOf_spec, Stmt.branch.sizeOf_spec]
      omega
    · simp only [Node.stmt.sizeOf_spec, Stmt.branch.sizeOf_spec]
      omega
    · cases elseBranch with
      | none => cases member
      | some other =>
        rw [List.mem_singleton.mp member]
        simp only [Node.stmt.sizeOf_spec, Stmt.branch.sizeOf_spec, Option.some.sizeOf_spec]
        omega
  | .stmt (.call callee args type) =>
    simp only [children, Stmt.children, List.mem_cons, List.mem_map] at member
    rcases member with rfl | ⟨arg, member, rfl⟩
    · simp only [Node.stmt.sizeOf_spec, Node.expr.sizeOf_spec, Stmt.call.sizeOf_spec]
      omega
    · have := inList member
      simp only [Node.stmt.sizeOf_spec, Node.expr.sizeOf_spec, Stmt.call.sizeOf_spec]
      omega
  | .stmt (.block lines) =>
    simp only [children, Stmt.children, List.mem_map] at member
    obtain ⟨line, member, rfl⟩ := member
    have := inList member
    simp only [Node.stmt.sizeOf_spec, Stmt.block.sizeOf_spec]
    omega
  | .expr (.call callee args type) =>
    simp only [children, Expr.children, List.mem_cons, List.mem_map] at member
    rcases member with rfl | ⟨arg, member, rfl⟩
    · simp only [Node.expr.sizeOf_spec, Expr.call.sizeOf_spec]
      omega
    · have := inList member
      simp only [Node.expr.sizeOf_spec, Expr.call.sizeOf_spec]
      omega
  | .expr (.arithmetic operator left right type) | .expr (.index left right type) =>
    simp only [children, Expr.children, List.mem_cons, List.not_mem_nil, or_false] at member
    rcases member with rfl | rfl <;>
    · simp only [Node.expr.sizeOf_spec, Expr.arithmetic.sizeOf_spec, Expr.index.sizeOf_spec]
      omega
  | .expr (.property base name type) =>
    rw [List.mem_singleton.mp member]
    simp only [Node.expr.sizeOf_spec, Expr.property.sizeOf_spec]
    omega
  | .expr (.var ..) | .expr (.string ..) | .expr (.int ..) | .expr (.bool ..) | .expr (.real ..) =>
    cases member

end TypedTree
