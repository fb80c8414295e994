import TypedTree.Path
import TypedTree.Toml.Reader
import TypedTree.Toml.Writer
/-! The configuration of a project, which stands in a file of its own in the project's directory. -/

namespace TypedTree

structure Package where
  name : String
  version : String
  edition : String := "2024"
deriving DecidableEq

structure CheckOptions where
  entry : String := "src/main.json"
  optimize : Bool := true
  output : Option String := none
deriving DecidableEq

structure Config where
  package : Package
  check : CheckOptions := {}
deriving DecidableEq

namespace Toml

/-- Whether a value can be read field by field. A date is a section without any field. -/
def isSection : Toml → Bool
  | table _ | list _ | moment _ => true
  | text _ | int _ | real _ | bool _ => false

def field? (position : Nat) (name : String) : Toml → Option Toml
  | table entries => entries.lookup name
  | list items => items[position]?
  | _ => none

def text? : Toml → Option String
  | text value => some value
  | _ => none

def bool? : Toml → Option Bool
  | bool value => some value
  | _ => none

end Toml

def Package.ofToml? (fields : Toml) : Option Package := do
  let name ← (← fields.field? 0 "name").text?
  let version ← (← fields.field? 1 "version").text?
  match fields.field? 2 "edition" with
  | none => some { name, version }
  | some edition => do some { name, version, edition := ← edition.text? }

def CheckOptions.ofToml? (options : Toml) : Option CheckOptions := do
  let default : CheckOptions := {}
  let entry ← (options.field? 0 "entry").elim (some default.entry) Toml.text?
  let optimize ← (options.field? 1 "optimize").elim (some default.optimize) Toml.bool?
  let output ← (options.field? 2 "output").elim (some default.output) fun value => value.text?.map some
  if options.isSection then some { entry, optimize, output } else none

namespace Config

def fileName : String := "mlang.toml"

def new (name : String) : Config := { package := { name, version := "0.1.0" } }

def ofText? (source : String) : Option Config := do
  let document ← Toml.ofText? source
  let package ← Package.ofToml? (← document.field? 0 "package")
  let check ← (document.field? 1 "check").elim (some {}) CheckOptions.ofToml?
  some { package, check }

def toText (config : Config) : String :=
  let line (name value : String) : String := name ++ " = " ++ value ++ "\n"
  "[package]\n" ++ line "name" (Toml.quote config.package.name) ++
    line "version" (Toml.quote config.package.version) ++
    line "edition" (Toml.quote config.package.edition) ++
    "\n[check]\n" ++ line "entry" (Toml.quote config.check.entry) ++
    line "optimize" (if config.check.optimize then "true" else "false") ++
    (config.check.output.elim "" fun output => line "output" (Toml.quote output))

def entryPath (config : Config) (root : String) : String := Path.join root config.check.entry

/-- The file for the decorated tree of the project at `root`; without a choice of its own, one in the
target directory that is named after the package. -/
def outputPath (config : Config) (root : String) : String :=
  match config.check.output with
  | some output => Path.join root output
  | none => Path.join (Path.join root "target") (config.package.name ++ ".json")

end Config

end TypedTree
