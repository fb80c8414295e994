import TypedTree.Error
import TypedTree.Files
import TypedTree.Json
import TypedTree.Config
/-! Why a command on a project fails: what was being done, from the outside inwards, and the cause. -/

namespace TypedTree

inductive Attempt where
  | read (path : String)
  | parse (path : String)
  | loadImport (path : String)
  | createDirectory (path : String)
  | create (path : String)
  | write (path : String)
  | remove (path : String)
  | findDirectory
  | findProject
deriving DecidableEq

def Attempt.message : Attempt → String
  | read path => "Failed to read " ++ path
  | parse path => "Failed to parse " ++ path
  | loadImport path => "Failed to import \"" ++ path ++ "\""
  | createDirectory path => "Failed to create directory " ++ path
  | create path => "Failed to create " ++ path
  | write path => "Failed to write " ++ path
  | remove path => "Failed to remove " ++ path
  | findDirectory => "Failed to get current directory"
  | findProject => "Not in an mlang project directory"

inductive Cause where
  | file (fault : FileFault)
  | json (fault : Json.Fault)
  | config
  | importing (error : Error)
  | tooManyImports
  | check (error : Error)
  | projectMissing
  | projectPresent
  | directoryPresent (name : String)
deriving DecidableEq

def Cause.message : Cause → String
  | file fault => fault.message
  | json .malformed => "the text is not JSON"
  | json .unfinished => "the text ends too early"
  | json .shape => "the text is not a program"
  | config => "the text is not a configuration"
  | importing error => error.message
  | tooManyImports => "Too many imports inside each other"
  | check _ => "Semantic analysis failed"
  | projectMissing => "Could not find " ++ Config.fileName ++ " in current directory or any parent directory"
  | projectPresent => Config.fileName ++ " already exists in current directory"
  | directoryPresent name => "Directory '" ++ name ++ "' already exists"

structure Failure where
  attempts : List Attempt := []
  cause : Cause
deriving DecidableEq

namespace Failure

def during (attempt : Attempt) (failure : Failure) : Failure :=
  { failure with attempts := attempt :: failure.attempts }

def messages (failure : Failure) : List String :=
  failure.attempts.map Attempt.message ++ [failure.cause.message]

def report (failure : Failure) : List String :=
  let described := match failure.cause with
    | .check error => error.message :: (error.help?.map ("  help: " ++ ·)).toList
    | _ => []
  let listed := match failure.messages with
    | [] => []
    | [only] => ["Error: " ++ only]
    | [outer, cause] => ["Error: " ++ outer, "", "Caused by:", "    " ++ cause]
    | outer :: causes =>
      ["Error: " ++ outer, "", "Caused by:"] ++
        causes.mapIdx fun position cause => "    " ++ toString position ++ ": " ++ cause
  described ++ listed

def ofFault (attempt : Attempt) (fault : FileFault) : Failure := ⟨[attempt], .file fault⟩

end Failure

end TypedTree
