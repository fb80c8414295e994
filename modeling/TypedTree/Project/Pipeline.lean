import TypedTree.Project.Load
import TypedTree.Check.Program
import TypedTree.Optimize.Rounds
import TypedTree.Tree.Encode
/-! From the file of a program to its decorated tree. -/

namespace TypedTree

variable {m : Type → Type} [Monad m] [MonadFiles m]

def checkFile (file : String) : m (Except Failure Program) := do
  match ← loadProgram file with
  | .error failure => pure (.error failure)
  | .ok program => pure (program.check.mapError fun error => ⟨[], .check error⟩)

def Program.decoratedText (optimize : Bool) (program : Program) : String :=
  (if optimize then (Pass.optimize Pass.defaults program).1 else program).emit

def buildFile (file : String) (optimize : Bool) : m (Except Failure String) := do
  let checked ← checkFile file
  pure (checked.map (Program.decoratedText optimize))

end TypedTree
