import TypedTree.Console
import TypedTree.Project.Pipeline
/-! The commands on projects. A project is a directory with a configuration file; the commands that
need one look for it from the current directory upwards. -/

namespace TypedTree

variable {m : Type → Type} [Monad m] [MonadFiles m] {α : Type}

def attempt (what : Attempt) (operation : m (Except FileFault α)) : ExceptT Failure m α := do
  match ← operation with
  | .ok result => return result
  | .error fault => throw (.ofFault what fault)

def isPresent (path : String) : ExceptT Failure m Bool := ExceptT.lift (MonadFiles.isPresent path)

def during (what : Attempt) (part : ExceptT Failure m α) : ExceptT Failure m α :=
  ExceptT.mk do return (← part.run).mapError (Failure.during what)

namespace Config

def load (path : String) : ExceptT Failure m Config := do
  match ofText? (← attempt (.read path) (MonadFiles.readText path)) with
  | some config => return config
  | none => throw ⟨[.parse fileName], .config⟩

def save (config : Config) (path : String) : ExceptT Failure m Unit :=
  attempt (.write path) (MonadFiles.writeText path config.toText)

/-- The configuration in a directory or the nearest one above it, and the directory that holds it. At
most `depth` directories are left upwards. -/
def findFrom : (depth : Nat) → (directory : String) → ExceptT Failure m (Config × String)
  | 0, _ => throw ⟨[], .projectMissing⟩
  | depth + 1, directory => do
    let path := Path.join directory fileName
    if ← isPresent path then return (← load path, directory)
    else match Path.parent? directory with
      | some parent => findFrom depth parent
      | none => throw ⟨[], .projectMissing⟩

def find : ExceptT Failure m (Config × String) := do
  let directory ← attempt .findDirectory MonadFiles.currentDirectory
  findFrom (directory.length + 1) directory

end Config

namespace Project

def template : String := "\n".intercalate [
  "\x7b",
  "  \"imports\": [\x7b \"path\": \"system\" \x7d],",
  "  \"nodes\": [",
  "    \x7b",
  "      \"kind\": \"function\",",
  "      \"exported\": true,",
  "      \"name\": \"main\",",
  "      \"type\": \x7b \"name\": \"void\" \x7d,",
  "      \"params\": [],",
  "      \"body\": \x7b",
  "        \"lines\": [",
  "          \x7b",
  "            \"kind\": \"methodCall\",",
  "            \"from\": \x7b \"kind\": \"variable\", \"name\": \"log\" \x7d,",
  "            \"args\": [\x7b \"kind\": \"stringValue\", \"value\": \"Hello, mlang!\" \x7d]",
  "          \x7d",
  "        ]",
  "      \x7d",
  "    \x7d",
  "  ]",
  "\x7d",
  ""]

/-- Puts a configuration and an entry program in a directory. An entry program that is there already
is kept. -/
def create (directory name : String) : ExceptT Failure m Unit := do
  let config := Config.new name
  let entry := config.entryPath directory
  if let some parent := Path.parent? entry then
    attempt (.createDirectory parent) (MonadFiles.ensureDirectories parent)
  config.save (Path.join directory Config.fileName)
  unless ← isPresent entry do
    attempt (.create entry) (MonadFiles.writeText entry template)

def find : ExceptT Failure m (Config × String) := during .findProject Config.find

end Project

inductive Command where
  | new (name : String)
  | init
  | check
  | build
  | clean

namespace Command

def ofArguments? : List String → Option Command
  | ["new", name] | ["n", name] => some (new name)
  | ["init"] => some init
  | ["check"] | ["c"] => some check
  | ["build"] | ["b"] => some build
  | ["clean"] => some clean
  | _ => none

variable [MonadConsole m]

def announce (name : String) (steps : List String) : m Unit := do
  MonadConsole.printLine ("Created mlang project '" ++ name ++ "'")
  MonadConsole.printLine ""
  MonadConsole.printLine "To get started:"
  for step in steps do
    MonadConsole.printLine ("  " ++ step)

def printStatus (status : String) (config : Config) (root : String) : m Unit :=
  MonadConsole.printLine
    (status ++ " " ++ config.package.name ++ " v" ++ config.package.version ++ " (" ++ root ++ ")")

def printFinished (result : String) : m Unit :=
  MonadConsole.printLine ("    Finished " ++ result)

def printTimed (result : String) (start : Nat) : m Unit := do
  let elapsed := (← MonadConsole.clock) - start
  printFinished (result ++ " in " ++ secondsText elapsed ++ "s")

def runNew (name : String) : ExceptT Failure m Unit := do
  if ← isPresent name then throw ⟨[], .directoryPresent name⟩
  Project.create name name
  announce name ["cd " ++ name, "mlang check"]

def runInit : ExceptT Failure m Unit := do
  let directory ← attempt .findDirectory MonadFiles.currentDirectory
  if ← isPresent (Path.join directory Config.fileName) then throw ⟨[], .projectPresent⟩
  let name := (Path.fileName? directory).getD "mlang-project"
  Project.create directory name
  announce name ["mlang check"]

def runCheck : ExceptT Failure m Unit := do
  let (config, root) ← Project.find
  let start ← MonadConsole.clock
  printStatus "Checking" config root
  let _ ← ExceptT.mk (checkFile (config.entryPath root))
  printTimed "project checked successfully" start

def runBuild : ExceptT Failure m Unit := do
  let (config, root) ← Project.find
  let start ← MonadConsole.clock
  printStatus "Building" config root
  let text ← ExceptT.mk (buildFile (config.entryPath root) config.check.optimize)
  let output := config.outputPath root
  if let some parent := Path.parent? output then
    attempt (.create parent) (MonadFiles.ensureDirectories parent)
  attempt (.write output) (MonadFiles.writeText output text)
  printTimed ("decorated tree written to " ++ output) start

def runClean : ExceptT Failure m Unit := do
  let (config, root) ← Project.find
  printStatus "Cleaning" config root
  let target := Path.join root "target"
  if ← isPresent target then
    attempt (.remove target) (MonadFiles.removeDirectory target)
    printFinished "target directory removed"
  else printFinished "target directory does not exist, nothing to clean"

def run : Command → ExceptT Failure m Unit
  | new name => runNew name
  | init => runInit
  | check => runCheck
  | build => runBuild
  | clean => runClean

end Command

end TypedTree
