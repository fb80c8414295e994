import TypedTree.Path
/-! Files as programs see them: texts and directories under paths. What works on files does so in a
monad of its own, so that the files may be real or held in memory. -/

namespace TypedTree

inductive FileFault where
  | notFound
  | alreadyThere
  | notDirectory
  | isDirectory
  | nameTooLong
  | zeroInPath
  | notText
  | other (reason : String)
deriving DecidableEq

def FileFault.message : FileFault → String
  | notFound => "No such file or directory (os error 2)"
  | alreadyThere => "File exists (os error 17)"
  | notDirectory => "Not a directory (os error 20)"
  | isDirectory => "Is a directory (os error 21)"
  | nameTooLong => "File name too long (os error 36)"
  | zeroInPath => "file name contained an unexpected NUL byte"
  | notText => "stream did not contain valid UTF-8"
  | other reason => reason

/-- A monad with files. A path that is not absolute is seen from the current directory. -/
class MonadFiles (m : Type → Type) where
  currentDirectory : m (Except FileFault String)
  isPresent : String → m Bool
  isDirectory : String → m Bool
  readText : String → m (Except FileFault String)
  writeText : String → String → m (Except FileFault Unit)
  makeDirectory : String → m (Except FileFault Unit)
  removeDirectory : String → m (Except FileFault Unit)

namespace MonadFiles

variable {m : Type → Type} [Monad m] [MonadFiles m]

def ensureDirectory (path : String) : m (Except FileFault Unit) := do
  match ← makeDirectory path with
  | .ok () => pure (.ok ())
  | .error fault => if ← isDirectory path then pure (.ok ()) else pure (.error fault)

def ensureDirectoriesWithin : (depth : Nat) → String → m (Except FileFault Unit)
  | 0, path => ensureDirectory path
  | depth + 1, path => do
    if path.isEmpty then pure (.ok ())
    else match ← ensureDirectory path with
      | .error .notFound =>
        match Path.parent? path with
        | none => pure (.error .notFound)
        | some parent =>
          match ← ensureDirectoriesWithin depth parent with
          | .error fault => pure (.error fault)
          | .ok () => ensureDirectory path
      | result => pure result

def ensureDirectories (path : String) : m (Except FileFault Unit) :=
  ensureDirectoriesWithin (path.length + 1) path

end MonadFiles

end TypedTree
