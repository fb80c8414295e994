import TypedTree.Proofs.Check.Declared
import TypedTree.Proofs.Tree.Pruning
/-! A check as two walks over a tree, one after the other. The first one meets the names of types and leaves the tree
as it is; the second one checks every function against the program that it stands in, and puts the checked function in
its place. -/

namespace TypedTree

def Decl.handler : Handler Unit := fun node parent state =>
  match node, parent with
  | .decl (.function declaration), some (.program program) =>
    (((Decl.function declaration).checkBody (Environment.ofProgram program)).map .decl, state)
  | .decl (.function declaration), _ =>
    (.error (.malformed ("function " ++ declaration.name ++ " is not declared in a program")), state)
  | other, _ => (.ok other, state)

section Bodies

variable {α β γ δ : Type}

/-- A step of a walk comes to what a check comes to, and the walk knows a shared program by its checked one. -/
def Checks (step : Walk Unit α) (result : β → α) (check : CheckedModules → Except Error (β × CheckedModules)) : Prop :=
  ∀ done, match check done with
    | .ok (value, later) => step ⟨(), done⟩ = (.ok (result value), ⟨(), later⟩)
    | .error error => ∃ stopped, step ⟨(), done⟩ = (.error (.failed error), stopped)

theorem Checks.done (result : β → α) (value : β) :
    Checks (Walk.ofExcept (.ok (result value))) result fun done => pure (value, done) := fun _ => rfl

theorem Checks.andThen {step : Walk Unit α} {next : α → Walk Unit γ} {result : β → α} {resultNext : δ → γ}
    {check : CheckedModules → Except Error (β × CheckedModules)}
    {checkNext : β → CheckedModules → Except Error (δ × CheckedModules)}
    {both : CheckedModules → Except Error (δ × CheckedModules)} (checks : Checks step result check)
    (further : ∀ value, (∃ before later, check before = .ok (value, later)) →
      Checks (next (result value)) resultNext (checkNext value))
    (joined : ∀ done, both done = check done >>= fun found => checkNext found.1 found.2) :
    Checks (step.andThen next) resultNext both := by
  intro done
  have ran := checks done
  rw [joined, Walk.andThen]
  rcases checked : check done with error | ⟨value, later⟩
  · rw [checked] at ran
    obtain ⟨stopped, ran⟩ := ran
    exact ⟨stopped, by rw [ran]⟩
  · rw [checked] at ran
    rw [ran]
    exact further value ⟨done, later, checked⟩ later

theorem Walk.all_append (step : α → Walk Unit β) (values others : List α) :
    Walk.all step (values ++ others) = (Walk.all step values).andThen fun first =>
      (Walk.all step others).andThen fun rest => Walk.ofExcept (.ok (first ++ rest)) := by
  induction values with
  | nil =>
    funext state
    simp only [List.nil_append, all, andThen]
    rcases Walk.all step others state with ⟨_ | _, _⟩ <;> rfl
  | cons value values ih =>
    funext state
    simp only [List.cons_append, all, ih, andThen]
    rcases step value state with ⟨_ | first, middle⟩
    · rfl
    · simp only
      rcases Walk.all step values middle with ⟨_ | firsts, later⟩
      · rfl
      · simp only
        rcases Walk.all step others later with ⟨_ | _, _⟩ <;> rfl

theorem length_importsCheckBodies {imports checked : List Import} {done later : CheckedModules}
    (checks : importsCheckBodies imports done = .ok (checked, later)) : checked.length = imports.length := by
  induction imports generalizing checked done with
  | nil =>
    cases checks
    rfl
  | cons entry imports ih =>
    simp only [importsCheckBodies, bind_eq_ok_iff] at checks
    obtain ⟨_, -, ⟨rest, _⟩, checksRest, same⟩ := checks
    cases same
    rw [List.length_cons, List.length_cons, ih checksRest]

theorem checks_imports {step : Node → Walk Unit Node} (imports : List Import)
    (each : ∀ entry ∈ imports, Checks (step (.importEntry entry)) .importEntry (Import.checkBodies entry)) :
    Checks (Walk.all step (imports.map .importEntry)) (List.map .importEntry) (importsCheckBodies imports) := by
  induction imports with
  | nil => exact fun _ => rfl
  | cons entry imports ih =>
    obtain ⟨first, rest⟩ := List.forall_mem_cons.mp each
    exact first.andThen (fun checked _ => (ih rest).andThen
      (fun others _ => .done (List.map Node.importEntry) (checked :: others)) fun _ => rfl) fun _ => rfl

theorem checks_decls {step : Node → Walk Unit Node} {check : Decl → Except Error Decl} (decls : List Decl)
    (each : ∀ decl ∈ decls, Checks (step (.decl decl)) .decl fun done => do return (← check decl, done)) :
    Checks (Walk.all step (decls.map .decl)) (List.map .decl) fun done => do return (← decls.mapM check, done) := by
  induction decls with
  | nil => exact fun _ => rfl
  | cons decl decls ih =>
    obtain ⟨first, rest⟩ := List.forall_mem_cons.mp each
    refine first.andThen (fun checked _ => (ih rest).andThen
      (fun others _ => .done (List.map Node.decl) (checked :: others)) fun _ => rfl) fun done => ?_
    simp only [List.mapM_cons, bind_assoc, pure_bind]

abbrev walkFunctions : (depth : Nat) → Node → (parent : Option Node) → Walk Unit Node :=
  walkInto (Node.mayContain [.function]) [.function] Decl.handler

theorem checks_decl (depth : Nat) (decl : Decl) (program : Program) :
    Checks (walkFunctions (depth + 1) (.decl decl) (some (.program program))) .decl fun done => do
      return (← decl.checkBody (Environment.ofProgram program), done) := by
  have leaf (decl : Decl) : (Node.decl decl).mayContain [.function] = false := by cases decl <;> rfl
  intro done
  cases decl with
  | object declaration => rfl
  | function declaration =>
    simp only [walkFunctions, walkInto, Walk.andThen, Walk.handle]
    rw [if_pos (by rfl), Decl.handler]
    cases checked : (Decl.function declaration).checkBody (Environment.ofProgram program) with
    | error error => exact ⟨_, rfl⟩
    | ok checked =>
      simp only [Except.map, leaf]
      rfl

theorem Checks.shared {step : Walk Unit Node} {program : Program}
    (inside : Checks step .program program.checkBodies) (path : String) (id : Nat) :
    Checks (walkShared path ⟨id, program⟩ step) .importEntry (Import.checkBodies ⟨path, some ⟨id, program⟩⟩) := by
  intro done
  have ran := inside done
  simp only [Import.checkBodies, targetCheckBodies, Module.checkBodies, walkShared, Walk.andThen]
  cases known : done.find? id with
  | some checked => exact rfl
  | none =>
    rcases checked : program.checkBodies done with error | ⟨value, later⟩
    · rw [checked] at ran
      obtain ⟨stopped, ran⟩ := ran
      exact ⟨stopped, by rw [ran]⟩
    · rw [checked] at ran
      simp only [ran]
      rfl

theorem checks_importEntry {depth : Nat} {entry : Import} (inside : ∀ shared, entry.target = some shared →
    ∀ parent, Checks (walkFunctions depth (.program shared.program) parent) .program shared.program.checkBodies)
    (parent : Option Node) :
    Checks (walkFunctions (depth + 1) (.importEntry entry) parent) .importEntry entry.checkBodies := by
  obtain ⟨path, _ | ⟨id, program⟩⟩ := entry
  · exact fun _ => rfl
  · exact (inside _ rfl _).shared path id

theorem Checks.program {step : Node → Walk Unit Node} {imports : List Import} {decls : List Decl}
    (eachImport : ∀ entry ∈ imports, Checks (step (.importEntry entry)) .importEntry (Import.checkBodies entry))
    (eachDecl : ∀ decl ∈ decls, Checks (step (.decl decl)) .decl fun done => do
      return (← decl.checkBody (Environment.ofProgram ⟨imports, decls⟩), done)) :
    Checks ((Walk.all step (Node.program ⟨imports, decls⟩).children).andThen fun children =>
      Walk.ofExcept ((Node.program ⟨imports, decls⟩).withChildren children)) .program
        (Program.checkBodies ⟨imports, decls⟩) := by
  let parts (program : Program) : List Node := program.imports.map .importEntry ++ program.decls.map .decl
  have children : Checks (Walk.all step (imports.map .importEntry ++ decls.map .decl)) parts
      (Program.checkBodies ⟨imports, decls⟩) := by
    rw [Walk.all_append]
    refine (checks_imports imports eachImport).andThen (fun entries _ => (checks_decls decls eachDecl).andThen
      (fun others _ => .done parts ⟨entries, others⟩) fun _ => rfl) fun done => ?_
    simp only [Program.checkBodies, bind_assoc, pure_bind]
  have rebuilt (checked : Program)
      (found : ∃ before later, Program.checkBodies ⟨imports, decls⟩ before = .ok (checked, later)) :
      Checks (Walk.ofExcept ((Node.program ⟨imports, decls⟩).withChildren (parts checked))) .program
        fun done => pure (checked, done) := by
    obtain ⟨before, later, found⟩ := found
    simp only [Program.checkBodies, bind_eq_ok_iff] at found
    obtain ⟨⟨entries, middle⟩, checkedImports, others, checkedDecls, same⟩ := found
    cases same
    have many := (mapM_eq_ok_iff.mp checkedDecls).length_eq.symm
    rw [Node.withChildren_program (length_importsCheckBodies checkedImports) many]
    exact .done Node.program _
  exact children.andThen rebuilt fun done => (bind_pure _).symm

theorem checks_program (depth : Nat) (program : Program) (parent : Option Node)
    (room : sizeOf (Node.program program) ≤ depth) :
    Checks (walkFunctions depth (.program program) parent) .program program.checkBodies := by
  induction depth using Nat.strongRecOn generalizing program parent with
  | ind depth ih =>
    obtain ⟨imports, decls⟩ := program
    have positive := (Node.program ⟨imports, decls⟩).sizeOf_pos
    obtain ⟨depth, rfl⟩ : ∃ less, depth = less + 1 := ⟨depth - 1, by omega⟩
    -- the depth at which a part is walked leaves room for what is behind the part
    have deeper {child : Node} (member : child ∈ (Node.program ⟨imports, decls⟩).children) :
        ∃ below, depth = below + 1 ∧ sizeOf child ≤ below + 1 := by
      have smaller := Node.sizeOf_children member
      have positive := child.sizeOf_pos
      exact ⟨depth - 1, by omega, by omega⟩
    have walked : walkFunctions (depth + 1) (.program ⟨imports, decls⟩) parent =
        (Walk.all (fun child => walkFunctions depth child (some (.program ⟨imports, decls⟩)))
          (Node.program ⟨imports, decls⟩).children).andThen fun children =>
            Walk.ofExcept ((Node.program ⟨imports, decls⟩).withChildren children) := rfl
    rw [walked]
    refine .program (fun entry member => ?_) fun decl member => ?_
    · obtain ⟨below, rfl, room⟩ := deeper (List.mem_append_left _ (List.mem_map_of_mem member))
      refine checks_importEntry (fun shared target parent => ih below (by omega) shared.program parent ?_) _
      have smaller : sizeOf (Node.program shared.program) < sizeOf (Node.importEntry entry) := Node.sizeOf_shared target
      omega
    · obtain ⟨below, rfl, -⟩ := deeper (List.mem_append_right _ (List.mem_map_of_mem member))
      exact checks_decl below decl ⟨imports, decls⟩

end Bodies

variable {program : Program} {depth : Nat}

theorem Program.visit_functions (room : sizeOf (Node.program program) ≤ depth) :
    (visit depth [.function] Decl.handler (.program program) none ()).1 =
      ((program.checkBodies .empty).map fun checked => Node.program checked.1).mapError .failed := by
  have ran := checks_program depth program none room .empty
  rw [visit, walk_eq_walkInto]
  rcases checked : program.checkBodies .empty with error | ⟨checked, done⟩
  · rw [checked] at ran
    obtain ⟨stopped, ran⟩ := ran
    exact congrArg Prod.fst ran
  · rw [checked] at ran
    exact congrArg Prod.fst ran

/-- A check of a program is a walk over its declarations, and a walk over its functions behind that. -/
theorem Program.check_eq_visits (coherent : program.Coherent) (room : sizeOf (Node.program program) ≤ depth) :
    (do
      let declared ← (visit depth DeclaredTypes.kinds DeclaredTypes.handler (.program program) none {}).1
      (visit depth [.function] Decl.handler declared none ()).1) =
        (program.check.map Node.program).mapError .failed := by
  rw [program.visit_declarations coherent room, check]
  cases program.checkTypeDeclarations with
  | error error => rfl
  | ok declared =>
    change (visit depth [.function] Decl.handler (.program program) none ()).1 = _
    rw [visit_functions room]
    cases program.checkBodies .empty <;> rfl

end TypedTree
