import TypedTree.Files
import TypedTree.Console
import TypedTree.Table
/-! Files held in memory. Paths are followed name by name, and every name on the way must be a
directory that is there. -/

namespace TypedTree

abbrev Place := List String

inductive Stored where
  | text (content : String)
  | directory
deriving DecidableEq

/-- Files and directories by their place. The root is always there. -/
structure FileTree where
  entries : Table Place Stored := .empty
  current : Option Place := some []

namespace FileTree

def at? (tree : FileTree) (place : Place) : Option Stored :=
  if place.isEmpty then some .directory else tree.entries.find? place

def walk (tree : FileTree) : Place → (names : List String) → Except FileFault Place
  | place, [] => .ok place
  | place, name :: names =>
    match tree.at? place with
    | none => .error .notFound
    | some (.text _) => .error .notDirectory
    | some .directory =>
      if name = "." then tree.walk place names
      else if name = ".." then tree.walk place.dropLast names
      else if 255 < name.utf8ByteSize then .error .nameTooLong
      else tree.walk (place ++ [name]) names

def namesOf (path : String) : List String :=
  ((Path.pieces path.toList).filter fun piece => !piece.isEmpty).map String.ofList

/-- Whether a path can only name a directory. -/
def endsOpen (path : String) : Bool := path.toList.getLast? = some '/'

def startOf (tree : FileTree) (path : String) : Except FileFault Place :=
  if path.isEmpty then .error .notFound
  else if path.toList.contains '\x00' then .error .zeroInPath
  else if 4095 < path.utf8ByteSize then .error .nameTooLong
  else if Path.isAbsolute path then .ok []
  else match tree.current with
    | some place => .ok place
    | none => .error .notFound

def find (tree : FileTree) (path : String) : Except FileFault (Place × Stored) := do
  let start ← tree.startOf path
  let place ← tree.walk start (namesOf path ++ if endsOpen path then ["."] else [])
  match tree.at? place with
  | some stored => .ok (place, stored)
  | none => .error .notFound

/-- The place a path names in a directory that is there; none if the path ends in no name of its own. -/
def target (tree : FileTree) (path : String) : Except FileFault (Option Place) := do
  let start ← tree.startOf path
  let names := namesOf path
  let directory ← tree.walk start (names.dropLast ++ ["."])
  match names.getLast? with
  | none => .ok none
  | some name =>
    if name = "." ∨ name = ".." then .ok none
    else if 255 < name.utf8ByteSize then .error .nameTooLong
    else .ok (some (directory ++ [name]))

def readText (tree : FileTree) (path : String) : Except FileFault String := do
  match ← tree.find path with
  | (_, .text content) => .ok content
  | (_, .directory) => .error .isDirectory

def writeText (tree : FileTree) (path content : String) : Except FileFault FileTree := do
  match ← tree.target path with
  | none => .error .isDirectory
  | some place =>
    if endsOpen path ∨ tree.at? place = some .directory then .error .isDirectory
    else .ok { tree with entries := tree.entries.insert place (.text content) }

def makeDirectory (tree : FileTree) (path : String) : Except FileFault FileTree := do
  match ← tree.target path with
  | none => .error .alreadyThere
  | some place =>
    if (tree.at? place).isSome then .error .alreadyThere
    else .ok { tree with entries := tree.entries.insert place .directory }

def removePlace (tree : FileTree) (place : Place) : FileTree where
  entries := ⟨tree.entries.entries.filter fun entry => !place.isPrefixOf entry.1⟩
  current := tree.current.filter fun current => !place.isPrefixOf current

def removeDirectory (tree : FileTree) (path : String) : Except FileFault FileTree := do
  match ← tree.find path with
  | (place, .directory) => .ok (tree.removePlace place)
  | (_, .text _) => .error .notDirectory

def enter (tree : FileTree) (path : String) : Except FileFault FileTree := do
  match ← tree.find path with
  | (place, .directory) => .ok { tree with current := some place }
  | (_, .text _) => .error .notDirectory

def pathOf (place : Place) : String := "/" ++ "/".intercalate place

end FileTree

structure Memory where
  tree : FileTree := {}
  printed : List String := []

def Memory.change (change : FileTree → Except FileFault FileTree) :
    StateM Memory (Except FileFault Unit) := fun memory =>
  match change memory.tree with
  | .ok tree => (.ok (), { memory with tree })
  | .error fault => (.error fault, memory)

instance : MonadFiles (StateM Memory) where
  currentDirectory := fun memory =>
    (match memory.tree.current with
      | some place => .ok (FileTree.pathOf place)
      | none => .error .notFound, memory)
  isPresent path := fun memory => ((memory.tree.find path).toOption.isSome, memory)
  isDirectory path := fun memory =>
    ((memory.tree.find path).toOption.any fun found => found.2 = .directory, memory)
  readText path := fun memory => (memory.tree.readText path, memory)
  writeText path content := Memory.change fun tree => tree.writeText path content
  makeDirectory path := Memory.change fun tree => tree.makeDirectory path
  removeDirectory path := Memory.change fun tree => tree.removeDirectory path

instance : MonadConsole (StateM Memory) where
  printLine line := modify fun memory => { memory with printed := line :: memory.printed }
  clock := pure 0

end TypedTree
