import TypedTree.Project.Pipeline
import TypedTree.Proofs.Project.Load
import TypedTree.Proofs.Tree.Written
/-! What a build writes, read again. The written tree has literals that folding has made and types that
checking has found, so that it may hold a real without a JSON number, or be deeper than a reader follows it. -/

namespace TypedTree

/-- Whether the text of a program can be read as a program. -/
def Program.IsReadable (program : Program) : Prop :=
  (∀ part ∈ program.exprs, part.IsFinite) ∧ program.encode.nesting ≤ Json.maxDepth

/-- The text of a program stands for the program with its imports unresolved, or for none. -/
theorem Program.ofText_emit_eq_ok_iff {program result : Program} :
    Program.ofText program.emit = .ok result ↔ program.IsReadable ∧ result = program.unresolved := by
  have document : Json.Document.ofText program.emit = ⟨program.encode.draftAt 0, false⟩ :=
    Json.Document.ofText_pretty program.encode program.numbersReadBack_encode
  have read : Program.ofText program.emit = (program.encode.draftAt 0).reading.program := by
    rw [Program.ofText, document, Json.Document.read]
    cases (program.encode.draftAt 0).reading.program <;> rfl
  rw [read]
  constructor
  · intro reads
    have nesting := Program.nesting_of_reading reads
    rw [Json.draftAt_eq_draft program.encode (by omega)] at reads
    have finite := Program.finite_of_reading reads
    rw [program.reading_encode finite] at reads
    exact ⟨⟨finite, nesting⟩, (Except.ok.inj reads).symm⟩
  · rintro ⟨⟨finite, nesting⟩, rfl⟩
    rw [Json.draftAt_eq_draft program.encode (by omega)]
    exact program.reading_encode finite

def FileTree.checked (tree : FileTree) (file : String) : Except Failure Program := do
  let program ← tree.load file
  program.check.mapError fun error => ⟨[], .check error⟩

theorem run_checkFile (file : String) (memory : Memory) :
    (checkFile file : StateM Memory _).run memory = (memory.tree.checked file, memory) := by
  rw [checkFile, run_bind_of_run (run_loadProgram file memory), FileTree.checked]
  cases memory.tree.load file <;> rfl

theorem run_buildFile (file : String) (optimize : Bool) (memory : Memory) :
    (buildFile file optimize : StateM Memory _).run memory =
      ((memory.tree.checked file).map (Program.decoratedText optimize), memory) := by
  rw [buildFile, run_bind_of_run (run_checkFile file memory)]
  rfl

/-- What a build returns is the text of the checked program in the file, with its constants folded. The text
can be read exactly if all real literals in it are finite and the tree stays above the limit of the reader, and
then it stands for the written tree. -/
theorem buildFile_reads_back {file : String} {memory after : Memory} {text : String}
    (built : (buildFile file true : StateM Memory _).run memory = (.ok text, after)) :
    after = memory ∧ ∃ checked, memory.tree.checked file = .ok checked ∧
      ∃ written, written = (Pass.optimize Pass.defaults checked).1 ∧ text = written.emit ∧
        ∀ result, Program.ofText text = .ok result ↔ written.IsReadable ∧ result = written.unresolved := by
  rw [run_buildFile] at built
  obtain ⟨succeeds, rfl⟩ := Prod.mk.inj built
  cases found : memory.tree.checked file with
  | error failure =>
    rw [found] at succeeds
    cases succeeds
  | ok checked =>
    rw [found] at succeeds
    cases succeeds
    exact ⟨rfl, checked, rfl, _, rfl, rfl, fun _ => Program.ofText_emit_eq_ok_iff⟩

example : ¬ (Expr.arithmetic .multiply (.real 1e308 none) (.real 10 none) none).fold.1.IsFinite := by
  change ¬ (1e308 * 10 : Float).isFinite = true
  decide +kernel

/-- A quotient by zero is not folded, so that its operands are written, and come back with their types. -/
theorem buildFile_reads_back_quotient :
    let main := fun real compared : Option Ty => Program.mk [] [.function
      { name := "main", returns := .void
        body := [.declare "x" .bool (some (.arithmetic .equal
          (.arithmetic .divide (.real 2.5 real) (.real 0 real) real) (.real 1 real) compared))] }]
    let memory : Memory := { tree := { entries := ⟨[(["main.json"], .text (main none none).emit)]⟩ } }
    let written := main (some .real64) (some .bool)
    (buildFile "main.json" true : StateM Memory _).run memory = (.ok written.emit, memory) ∧
      Program.ofText written.emit = .ok written := by
  intro main memory written
  have finite : ∀ real compared, ∀ part ∈ (main real compared).exprs, part.IsFinite := by
    intro real compared
    simp only [main, Program.exprs, Decl.exprs, linesExprs, Stmt.exprs, Expr.parts, List.flatMap_cons,
      List.flatMap_nil, Option.elim_some, List.append_nil, List.cons_append, List.nil_append,
      List.forall_mem_cons]
    exact ⟨rfl, rfl, trivial, rfl, trivial, fun _ member => (nomatch member)⟩
  have source : Program.ofText (main none none).emit = .ok (main none none) :=
    Program.ofText_emit_eq_ok_iff.mpr ⟨⟨finite _ _, by decide +kernel⟩, rfl⟩
  have loaded : memory.tree.programIn "main.json" = .ok (main none none) :=
    FileTree.programIn_eq_ok_iff.mpr ⟨_, rfl, source⟩
  have found : memory.tree.checked "main.json" = .ok written := by
    rw [FileTree.checked, FileTree.load, loaded]
    rfl
  have built : (buildFile "main.json" true : StateM Memory _).run memory = (.ok written.emit, memory) := by
    rw [run_buildFile, found]
    rfl
  obtain ⟨-, checked, same, _, rfl, -, reads⟩ := buildFile_reads_back built
  cases found.symm.trans same
  have kept : (Pass.optimize Pass.defaults written).1 = written := rfl
  rw [kept] at reads
  exact ⟨built, (reads written).mpr ⟨⟨finite _ _, by decide +kernel⟩, rfl⟩⟩

end TypedTree
