import TypedTree.Project.Command
/-! The command line: commands on the files of the system. -/

namespace TypedTree

def systemError? : IO.Error → Option (UInt32 × String)
  | .alreadyExists _ code details | .noFileOrDirectory _ code details
  | .invalidArgument _ code details | .permissionDenied _ code details
  | .resourceExhausted _ code details | .inappropriateType _ code details
  | .noSuchThing _ code details | .interrupted _ code details
  | .otherError code details | .resourceBusy code details | .resourceVanished code details
  | .unsupportedOperation code details | .hardwareFault code details
  | .unsatisfiedConstraints code details | .illegalOperation code details
  | .protocolError code details | .timeExpired code details => some (code, details)
  | .unexpectedEof | .userError _ => none

def FileFault.ofCode (code : UInt32) (details : String) : FileFault :=
  if code = 2 then .notFound
  else if code = 17 then .alreadyThere
  else if code = 20 then .notDirectory
  else if code = 21 then .isDirectory
  else if code = 36 then .nameTooLong
  else .other (details ++ " (os error " ++ toString code ++ ")")

/-- The fault behind an error of the system. Some operations report its number with the sign reversed. -/
def FileFault.ofSystem (error : IO.Error) : FileFault :=
  match systemError? error with
  | none => .notText
  | some (code, details) => .ofCode (min code (0 - code)) details

def onSystem {α : Type} (path : String) (operation : IO α) : IO (Except FileFault α) := do
  if path.toList.contains '\x00' then return .error .zeroInPath
  match ← operation.toBaseIO with
  | .ok result => return .ok result
  | .error error => return .error (.ofSystem error)

def leadsSomewhere (path : String) : IO Bool := do
  return (← onSystem path (IO.FS.realPath path)).toOption.isSome

instance : MonadFiles IO where
  currentDirectory := onSystem "" do return (← IO.currentDir).toString
  isPresent path := leadsSomewhere path
  isDirectory path := if path.isEmpty then return false else leadsSomewhere (path ++ "/.")
  readText path := onSystem path (IO.FS.readFile path)
  writeText path content := onSystem path (IO.FS.writeFile path content)
  makeDirectory path := onSystem path (IO.FS.createDir path)
  removeDirectory path := onSystem path (IO.FS.removeDirAll path)

instance : MonadConsole IO where
  printLine line := IO.println line
  clock := IO.monoMsNow

end TypedTree

open TypedTree in
def main (arguments : List String) : IO UInt32 := do
  match Command.ofArguments? arguments with
  | none =>
    IO.eprintln "Usage: mlang new <name> | init | build | check | clean"
    return 2
  | some command =>
    match ← (command.run : ExceptT Failure IO Unit).run with
    | .ok () => return 0
    | .error failure =>
      for line in failure.report do
        IO.eprintln line
      return 1
