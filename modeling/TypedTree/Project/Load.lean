import TypedTree.Project.Failure
import TypedTree.Import.Link
import TypedTree.Json.Reader
import TypedTree.Tree.Decode
/-! Loading programs from files. An import names a file as seen from the directory of the importing
program; all imports of one path in a run share one program. -/

namespace TypedTree

def Program.ofText (source : String) : Except Json.Fault Program :=
  (Json.Document.ofText source).read fun draft => draft.reading.program

def importFile (directory path : String) : String :=
  let file := Path.join directory path
  if (Path.extension? file).isSome then file else Path.withExtension file "json"

def directoryOf (file : String) : String := (Path.parent? file).getD "."

/-- Files may import each other through at most this many others. -/
def maxImportDepth : Nat := 1000000

variable {m : Type → Type} [Monad m] [MonadFiles m]

def readProgram (file : String) : m (Except Failure Program) := do
  match ← MonadFiles.readText file with
  | .error fault => pure (.error (.ofFault (.read file) fault))
  | .ok source =>
    match Program.ofText source with
    | .error fault => pure (.error ⟨[.parse file], .json fault⟩)
    | .ok program => pure (.ok program)

def fileProvider : Provider m Failure String where
  resolves _ _ := true
  load directory path cache := do
    let file := importFile directory path
    let program ← readProgram file
    pure (program.map fun program => (program, directoryOf file), cache)
  ofError error := ⟨[], .importing error⟩
  within path failure := failure.during (.loadImport path)
  exhausted := ⟨[], .tooManyImports⟩

def loadProgram (file : String) : m (Except Failure Program) := do
  match ← readProgram file with
  | .error failure => pure (.error failure)
  | .ok program =>
    let (linked, _) ← fileProvider.link maxImportDepth (directoryOf file) program (.new 0)
    pure linked

end TypedTree
