import Mathlib.Data.List.InsertIdx
import TypedTree.Proofs.Check.Privacy
import TypedTree.Proofs.Check.Unnamed
/-! An import that is not used does no harm. The functions it exports and the objects behind it are there for
every rule of the check, but where nothing names them the check ends as it does without the import. -/

namespace TypedTree

def TypedName.names (named : TypedName) : List String := [named.name, named.type.name]

def Decl.names : Decl → List String
  | .function declaration =>
    declaration.name :: declaration.returns.name ::
      (declaration.params.flatMap TypedName.names ++ linesNames declaration.body)
  | .object declaration => declaration.name :: declaration.properties.flatMap TypedName.names

/-- The names that occur anywhere in a program or in the programs it imports, directly or not. -/
def Program.names (program : Program) : List String :=
  program.programs.flatMap fun inside => inside.decls.flatMap Decl.names

/-- The names of the functions that importers of a program can see. -/
def Program.exportedFunctions (program : Program) : List String :=
  (program.exported.filterMap Decl.functionType?).map Prod.fst

/-- The names of the objects that a program or a program it imports declares, exported or not. -/
def Program.objectsInside (program : Program) : List String :=
  program.programs.flatMap Program.objectNames

/-- The program with one more import, before the import at a position or behind all of them. -/
def Program.insertImport (position : Nat) (entry : Import) (program : Program) : Program :=
  { program with imports := program.imports.insertIdx position entry }

inductive EndAlike {α : Type} (related : α → α → Prop) : Except Error α → Except Error α → Prop
  | error (error : Error) : EndAlike related (.error error) (.error error)
  | ok {value other : α} (same : related value other) : EndAlike related (.ok value) (.ok other)

theorem EndAlike.bind {α β : Type} {related : α → α → Prop} {relatedAfter : β → β → Prop}
    {outcome other : Except Error α} {next otherNext : α → Except Error β} (ends : EndAlike related outcome other)
    (after : ∀ value otherValue, outcome = .ok value → other = .ok otherValue → related value otherValue →
      EndAlike relatedAfter (next value) (otherNext otherValue)) :
    EndAlike relatedAfter (outcome >>= next) (other >>= otherNext) := by
  cases ends with
  | error error => exact .error error
  | ok same => exact after _ _ rfl rfl same

theorem EndAlike.bind_eq {α β : Type} {related : α → α → Prop} {outcome other : Except Error α}
    (ends : EndAlike related outcome other) (next : Except Error β) :
    (other >>= fun _ => next) = outcome >>= fun _ => next := by
  cases ends <;> rfl

section Environments

variable {additions : Additions} {environment other : Environment}

structure Environment.Alike (additions : Additions) (environment other : Environment) : Prop where
  function : ∀ name, name ∉ additions.functions → other.function? name = environment.function? name
  object : ∀ name, name ∉ additions.objects → other.object? name = environment.object? name
  functionTypes : ∀ name type, environment.function? name = some type → additions.Avoids type
  propertyTypes : ∀ name object property type, environment.object? name = some object →
    object.property? property = some type → additions.Avoids type
  distinct : environment.functions.keys.Nodup
  otherDistinct : other.functions.keys.Nodup

theorem Environment.Alike.empty (additions : Additions) : Alike additions {} {} where
  function _ _ := rfl
  object _ _ := rfl
  functionTypes := nofun
  propertyTypes := nofun
  distinct := .nil
  otherDistinct := .nil

theorem TypedName.type_mem_names {named : TypedName} {typed : List TypedName} (member : named ∈ typed) :
    named.type.name ∈ typed.flatMap TypedName.names :=
  List.mem_flatMap.mpr ⟨named, member, .tail _ List.mem_cons_self⟩

theorem Additions.avoids_of_typed {typed : List TypedName}
    (spared : additions.Spares (typed.flatMap TypedName.names)) {named : TypedName} (member : named ∈ typed) :
    additions.Avoids named.type :=
  (spared named.type.name (TypedName.type_mem_names member)).right

theorem ObjectDecl.mem_of_property? {declaration : ObjectDecl} {property : String} {type : Ty}
    (found : declaration.objectType.property? property = some type) :
    ∃ named ∈ declaration.properties, named.type = type := by
  rw [property?_objectType, lastType?, Option.map_eq_some_iff] at found
  obtain ⟨named, last, same⟩ := found
  exact ⟨named, List.mem_reverse.mp (List.mem_of_find?_eq_some last), same⟩

theorem Environment.Alike.declare (alike : Alike additions environment other) {decl : Decl}
    (spared : additions.Spares decl.names) : Alike additions (environment.declare decl) (other.declare decl) := by
  cases decl with
  | function declaration =>
    rw [Decl.names, additions.spares_cons, additions.spares_cons] at spared
    refine ⟨?_, alike.object, ?_, alike.propertyTypes, ?_, ?_⟩
    · intro name unnamed
      simp only [Environment.declare, function?, Table.find?_insert]
      split
      · rfl
      · exact alike.function name unnamed
    · intro name type found
      simp only [Environment.declare, function?, Table.find?_insert] at found
      split at found
      · cases found
        exact spared.right.left.right
      · exact alike.functionTypes name type found
    · exact Table.nodup_keys_insert _ _ _ alike.distinct
    · exact Table.nodup_keys_insert _ _ _ alike.otherDistinct
  | object declaration =>
    rw [Decl.names, additions.spares_cons] at spared
    refine ⟨alike.function, ?_, alike.functionTypes, ?_, alike.distinct, alike.otherDistinct⟩
    · intro name unnamed
      simp only [Environment.declare, object?, Table.find?_insert]
      split
      · rfl
      · exact alike.object name unnamed
    · intro name object property type found member
      simp only [Environment.declare, object?, Table.find?_insert] at found
      split at found
      · cases found
        obtain ⟨named, declared, rfl⟩ := ObjectDecl.mem_of_property? member
        exact additions.avoids_of_typed spared.right declared
      · exact alike.propertyTypes name object property type found member

theorem Environment.Alike.declareAll (alike : Alike additions environment other) {decls : List Decl}
    (spared : ∀ decl ∈ decls, additions.Spares decl.names) :
    Alike additions (environment.declareAll decls) (other.declareAll decls) := by
  induction decls generalizing environment other with
  | nil => exact alike
  | cons decl decls ih =>
    rw [List.forall_mem_cons] at spared
    exact ih (alike.declare spared.left) spared.right

def Additions.Adds (additions : Additions) : Decl → Prop
  | .function declaration => declaration.name ∈ additions.functions
  | .object declaration => declaration.name ∈ additions.objects

theorem Environment.Alike.declareAdded (alike : Alike additions environment other) {decls : List Decl}
    (added : ∀ decl ∈ decls, additions.Adds decl) : Alike additions environment (other.declareAll decls) := by
  induction decls generalizing other with
  | nil => exact alike
  | cons decl decls ih =>
    rw [List.forall_mem_cons] at added
    refine ih ?_ added.right
    cases decl with
    | function declaration =>
      refine ⟨?_, alike.object, alike.functionTypes, alike.propertyTypes, alike.distinct,
        Table.nodup_keys_insert _ _ _ alike.otherDistinct⟩
      intro name unnamed
      have different : name ≠ declaration.name := fun same => unnamed (same ▸ added.left)
      rw [← alike.function name unnamed]
      exact Table.find?_insert_of_ne _ _ different
    | object declaration =>
      refine ⟨alike.function, ?_, alike.functionTypes, alike.propertyTypes, alike.distinct,
        alike.otherDistinct⟩
      intro name unnamed
      have different : name ≠ declaration.name := fun same => unnamed (same ▸ added.left)
      rw [← alike.object name unnamed]
      exact Table.find?_insert_of_ne _ _ different

def Additions.SparesImports (additions : Additions) (imports : List Import) : Prop :=
  ∀ entry ∈ imports, ∀ shared, entry.target = some shared →
    ∀ decl ∈ shared.program.exported, additions.Spares decl.names

theorem Environment.Alike.importAll (alike : Alike additions environment other) {imports : List Import}
    (spared : additions.SparesImports imports) :
    EndAlike (Alike additions) (environment.importAll imports) (other.importAll imports) := by
  induction imports generalizing environment other with
  | nil => exact .ok alike
  | cons entry imports ih =>
    obtain ⟨here, rest⟩ := List.forall_mem_cons.mp spared
    simp only [Environment.importAll]
    cases target : entry.target with
    | none => exact .error _
    | some shared => exact ih (alike.declareAll (here shared target)) rest

/-- Where what is added is imported, importing ends as it does without it. -/
theorem Environment.Alike.importAll_insertIdx (alike : Alike additions environment other) {shared : Module}
    (added : ∀ decl ∈ shared.program.exported, additions.Adds decl) (path : String) {imports : List Import}
    (spared : additions.SparesImports imports) (position : Nat) :
    EndAlike (Alike additions) (environment.importAll imports)
      (other.importAll (imports.insertIdx position ⟨path, some shared⟩)) := by
  induction imports generalizing environment other position with
  | nil =>
    cases position with
    | zero => exact .ok (alike.declareAdded added)
    | succ position => exact .ok alike
  | cons entry imports ih =>
    cases position with
    | zero => exact (alike.declareAdded added).importAll spared
    | succ position =>
      obtain ⟨here, rest⟩ := List.forall_mem_cons.mp spared
      rw [List.insertIdx_succ_cons]
      simp only [Environment.importAll]
      cases target : entry.target with
      | none => exact .error _
      | some shared => exact ih (alike.declareAll (here shared target)) rest position

theorem Environment.ofProgram_insertImport {program : Program} {shared : Module}
    (added : ∀ decl ∈ shared.program.exported, additions.Adds decl) (path : String)
    (sparedImports : additions.SparesImports program.imports)
    (spared : ∀ decl ∈ program.decls, additions.Spares decl.names) (position : Nat) :
    EndAlike (Alike additions) (ofProgram program)
      (ofProgram (program.insertImport position ⟨path, some shared⟩)) := by
  apply ((Alike.empty additions).importAll_insertIdx added path sparedImports position).bind
  intro imported otherImported _ _ alike
  exact .ok (alike.declareAll spared)

end Environments

section Bodies

variable {additions : Additions} {environment other : Environment}

theorem Context.lookup_ofEnvironment (distinct : environment.functions.keys.Nodup) (name : String) :
    (ofEnvironment environment).scopes.lookup name = environment.function? name := by
  have functions := Table.bindings_entries environment.functions distinct
  rw [ofEnvironment, Scopes.bindings_insertAll]
  exact congrFun functions name

theorem Environment.Alike.ofEnvironment (alike : Alike additions environment other) :
    (Context.ofEnvironment environment).Alike additions (Context.ofEnvironment other) where
  names name type _ found :=
    alike.functionTypes name type ((Context.lookup_ofEnvironment alike.distinct name).symm.trans found)
  properties name object property type _ := alike.propertyTypes name object property type
  lookup name unnamed := by
    rw [Context.lookup_ofEnvironment alike.distinct, Context.lookup_ofEnvironment alike.otherDistinct]
    exact alike.function name unnamed
  object := alike.object

theorem Context.Alike.insertAll {scopes otherScopes : Scopes} {entries : List (String × Ty)}
    (alike : Context.Alike additions ⟨environment, scopes⟩ ⟨other, otherScopes⟩)
    (avoids : ∀ entry ∈ entries, additions.Avoids entry.2) :
    Context.Alike additions ⟨environment, scopes.insertAll entries⟩ ⟨other, otherScopes.insertAll entries⟩ := by
  induction entries generalizing scopes otherScopes with
  | nil => exact alike
  | cons entry entries ih =>
    rw [List.forall_mem_cons] at avoids
    exact ih (alike.insert entry.1 avoids.left) avoids.right

theorem Decl.checkBody_alike {built otherBuilt : Except Error Environment}
    (ends : EndAlike (Environment.Alike additions) built otherBuilt) {decl : Decl}
    (spared : additions.Spares decl.names) : decl.checkBody otherBuilt = decl.checkBody built := by
  cases decl with
  | object declaration => rfl
  | function declaration =>
    cases ends with
    | error error => rfl
    | @ok environment other alike =>
      rw [names, additions.spares_cons, additions.spares_cons, additions.spares_append] at spared
      obtain ⟨-, -, paramsSpared, bodySpared⟩ := spared
      have avoids : ∀ entry ∈ declaration.params.map fun parameter => (parameter.name, parameter.type),
          additions.Avoids entry.2 :=
        List.forall_mem_map.mpr fun parameter member => additions.avoids_of_typed paramsSpared member
      have body := checkLines_alike declaration.body (alike.ofEnvironment.insertAll avoids) bodySpared
      have same : ((Context.ofEnvironment other).checkFunction declaration).1 =
          ((Context.ofEnvironment environment).checkFunction declaration).1 :=
        congrArg (fun body => Checked.mk { declaration with body := body.tree } body.outcome) body
      simp only [checkBody, bind, Except.bind, same]

theorem mapM_congr_left {ε α β : Type} {step other : α → Except ε β} {values : List α}
    (same : ∀ value ∈ values, other value = step value) : values.mapM other = values.mapM step := by
  induction values with
  | nil => rfl
  | cons value values ih =>
    rw [List.forall_mem_cons] at same
    rw [List.mapM_cons, List.mapM_cons, same.left, ih same.right]

theorem importsCheckBodiesApart_insertIdx {entry checked : Import}
    (done : Import.checkBodiesApart entry = .ok checked) (imports : List Import) (position : Nat) :
    importsCheckBodiesApart (imports.insertIdx position entry) =
      (importsCheckBodiesApart imports).map (·.insertIdx position checked) := by
  induction imports generalizing position with
  | nil =>
    cases position with
    | zero =>
      simp only [List.insertIdx_zero, importsCheckBodiesApart, done]
      rfl
    | succ position => rfl
  | cons first imports ih =>
    cases position with
    | zero =>
      rw [List.insertIdx_zero, importsCheckBodiesApart, done]
      cases importsCheckBodiesApart (first :: imports) <;> rfl
    | succ position =>
      rw [List.insertIdx_succ_cons, importsCheckBodiesApart, importsCheckBodiesApart, ih]
      cases Import.checkBodiesApart first with
      | error error => rfl
      | ok checkedFirst => cases importsCheckBodiesApart imports <;> rfl

end Bodies

section Events

variable {additions : Additions} {declared other : DeclaredTypes} {events : List TypeEvent}

namespace DeclaredTypes

def AgreeOff (additions : Additions) (declared other : DeclaredTypes) : Prop :=
  ∀ name, name ∉ additions.objects → other.contains name = declared.contains name

def Unused (additions : Additions) (events : List TypeEvent) : Prop :=
  ∀ name, .uses name ∈ events → name ∉ additions.objects

theorem AgreeOff.meet (agree : AgreeOff additions declared other) {event : TypeEvent}
    (unused : Unused additions [event]) :
    EndAlike (AgreeOff additions) (declared.meet event) (other.meet event) := by
  cases event with
  | declares name =>
    apply EndAlike.ok
    intro another unnamed
    rw [contains_register, contains_register, agree another unnamed]
  | uses name =>
    rw [DeclaredTypes.meet, DeclaredTypes.meet, agree name (unused name List.mem_cons_self)]
    split
    · exact .ok agree
    · exact .error _

theorem AgreeOff.meetAll (agree : AgreeOff additions declared other) (unused : Unused additions events) :
    EndAlike (AgreeOff additions) (declared.meetAll events) (other.meetAll events) := by
  induction events generalizing declared other with
  | nil => exact .ok agree
  | cons event events ih =>
    rw [meetAll_cons, meetAll_cons]
    apply (agree.meet fun name used => unused name (List.mem_cons.mpr (.inl (List.mem_singleton.mp used)))).bind
    intro later otherLater _ _ agreeLater
    exact ih agreeLater fun name used => unused name (List.mem_cons_of_mem _ used)

theorem AgreeOff.meetAdded (agree : AgreeOff additions declared other) (builtin : Within {} other)
    {alone : DeclaredTypes} (met : DeclaredTypes.meetAll {} events = .ok alone)
    (added : ∀ name, .declares name ∈ events → name ∈ additions.objects) :
    ∃ later, other.meetAll events = .ok later ∧ AgreeOff additions declared later := by
  obtain ⟨later, done, -⟩ := meetAll_within builtin met
  refine ⟨later, done, ?_⟩
  intro name unnamed
  rw [← agree name unnamed, Bool.eq_iff_iff, contains_meetAll done]
  exact or_iff_left fun declares => unnamed (added name declares)

theorem Within.meetAll {later : DeclaredTypes} (builtin : Within {} declared)
    (met : declared.meetAll events = .ok later) : Within {} later :=
  fun name known => (meetAll_ok met).right name (builtin name known)

end DeclaredTypes

open DeclaredTypes

theorem importsMeetAll_cons {entry : Import} {imports : List Import} (agree : AgreeOff additions declared other)
    (builtin : Within {} other) {alone : DeclaredTypes}
    (met : meetAll {} (Import.typeEventsApart entry) = .ok alone)
    (added : ∀ name, .declares name ∈ Import.typeEventsApart entry → name ∈ additions.objects)
    (unused : Unused additions (importsTypeEventsApart imports)) :
    EndAlike (AgreeOff additions) (declared.meetAll (importsTypeEventsApart imports))
      (other.meetAll (importsTypeEventsApart (entry :: imports))) := by
  obtain ⟨later, done, agreeLater⟩ := agree.meetAdded builtin met added
  rw [importsTypeEventsApart, meetAll_append, done]
  exact agreeLater.meetAll unused

theorem importsMeetAll_insertIdx (entry : Import) (agree : AgreeOff additions declared other)
    (builtin : Within {} other) {alone : DeclaredTypes}
    (met : meetAll {} (Import.typeEventsApart entry) = .ok alone)
    (added : ∀ name, .declares name ∈ Import.typeEventsApart entry → name ∈ additions.objects)
    {imports : List Import} (unused : Unused additions (importsTypeEventsApart imports)) (position : Nat) :
    EndAlike (AgreeOff additions) (declared.meetAll (importsTypeEventsApart imports))
      (other.meetAll (importsTypeEventsApart (imports.insertIdx position entry))) := by
  induction imports generalizing declared other position with
  | nil =>
    cases position with
    | zero => exact importsMeetAll_cons agree builtin met added unused
    | succ position => exact .ok agree
  | cons first imports ih =>
    cases position with
    | zero => exact importsMeetAll_cons agree builtin met added unused
    | succ position =>
      rw [List.insertIdx_succ_cons, importsTypeEventsApart, importsTypeEventsApart, meetAll_append,
        meetAll_append]
      apply (agree.meetAll fun name used => unused name (List.mem_append_left _ used)).bind
      intro later otherLater _ otherMet agreeLater
      have unusedLater : Unused additions (importsTypeEventsApart imports) :=
        fun name used => unused name (List.mem_append_right _ used)
      exact ih agreeLater (builtin.meetAll otherMet) unusedLater position

end Events

section Names

mutual

theorem Stmt.mem_names_of_uses {stmt : Stmt} {name : String} (used : .uses name ∈ stmt.typeEvents) :
    name ∈ stmt.names := by
  match stmt with
  | .declare _ type value =>
    cases List.mem_singleton.mp used
    exact .tail _ List.mem_cons_self
  | .assign .. | .call .. => cases used
  | .branch condition thenBranch elseBranch =>
    rcases List.mem_append.mp used with inThen | inElse
    · exact List.mem_append_left _ (List.mem_append_right _ (Stmt.mem_names_of_uses inThen))
    · exact List.mem_append_right _ (mem_elseNames_of_uses inElse)
  | .block lines => exact mem_linesNames_of_uses used

theorem mem_elseNames_of_uses {branch : Option Stmt} {name : String} (used : .uses name ∈ elseTypeEvents branch) :
    name ∈ elseNames branch := by
  match branch with
  | none => cases used
  | some branch => exact Stmt.mem_names_of_uses used

theorem mem_linesNames_of_uses {lines : List Stmt} {name : String} (used : .uses name ∈ linesTypeEvents lines) :
    name ∈ linesNames lines := by
  match lines with
  | [] => cases used
  | line :: lines =>
    rcases List.mem_append.mp used with here | later
    · exact List.mem_append_left _ (Stmt.mem_names_of_uses here)
    · exact List.mem_append_right _ (mem_linesNames_of_uses later)

end

theorem Decl.mem_names_of_uses {decl : Decl} {name : String} (used : .uses name ∈ decl.typeEvents) :
    name ∈ decl.names := by
  cases decl with
  | object declaration =>
    simp only [typeEvents, List.mem_cons, List.mem_map, reduceCtorEq, TypeEvent.uses.injEq, false_or] at used
    obtain ⟨property, member, rfl⟩ := used
    exact List.mem_cons_of_mem _ (TypedName.type_mem_names member)
  | function declaration =>
    simp only [typeEvents, List.cons_append, List.mem_cons, List.mem_append, List.mem_map,
      TypeEvent.uses.injEq] at used
    rw [names, List.mem_cons, List.mem_cons, List.mem_append]
    rcases used with same | ⟨parameter, member, rfl⟩ | inBody
    · exact .inr (.inl same)
    · exact .inr (.inr (.inl (TypedName.type_mem_names member)))
    · exact .inr (.inr (.inr (mem_linesNames_of_uses inBody)))

variable {additions : Additions} {program : Program}

theorem Additions.Spares.of_decl (spared : additions.Spares program.names) {inside : Program}
    (reached : inside ∈ program.programs) {decl : Decl} (member : decl ∈ inside.decls) :
    additions.Spares decl.names :=
  fun name occurs => spared name
    (List.mem_flatMap.mpr ⟨inside, reached, List.mem_flatMap.mpr ⟨decl, member, occurs⟩⟩)

theorem Additions.Spares.unused (spared : additions.Spares program.names) :
    DeclaredTypes.Unused additions program.typeEventsApart := by
  intro name used
  obtain ⟨inside, reached, event⟩ := (program.mem_typeEventsApart _).mp used
  obtain ⟨decl, member, event⟩ := List.mem_flatMap.mp event
  exact (spared.of_decl reached member name (Decl.mem_names_of_uses event)).right

theorem Additions.Spares.sparesImports (spared : additions.Spares program.names) :
    additions.SparesImports program.imports := by
  intro entry member shared target decl exported
  have reached := Program.mem_programs_of_import member target shared.program.self_mem_programs
  exact spared.of_decl reached (List.mem_filter.mp exported).left

end Names

def Program.additions (program : Program)
    (fresh : ∀ name ∈ program.objectsInside, name ∉ Ty.builtinNames ∧ name ≠ Ty.real64.name) : Additions :=
  ⟨program.exportedFunctions, program.objectsInside, fresh⟩

section Imported

variable {program : Program}
  (fresh : ∀ name ∈ program.objectsInside, name ∉ Ty.builtinNames ∧ name ≠ Ty.real64.name)

theorem Program.adds_exported : ∀ decl ∈ program.exported, (program.additions fresh).Adds decl := by
  intro decl member
  cases decl with
  | function declaration =>
    exact List.mem_map.mpr ⟨_, List.mem_filterMap.mpr ⟨_, member, rfl⟩, rfl⟩
  | object declaration =>
    refine List.mem_flatMap.mpr ⟨program, program.self_mem_programs, ?_⟩
    exact Program.mem_objectNames.mpr ⟨declaration, (List.mem_filter.mp member).left, rfl⟩

theorem Program.adds_declared {name : String} (declared : .declares name ∈ program.typeEventsApart) :
    name ∈ (program.additions fresh).objects := by
  obtain ⟨inside, reached, event⟩ := (program.mem_typeEventsApart _).mp declared
  exact List.mem_flatMap.mpr ⟨inside, reached, Program.declares_mem_iff.mp event⟩

end Imported

/-- One more import, and with it the program behind it, leaves the identities of programs coherent only if
they were before. -/
theorem Program.Coherent.of_insertImport {program : Program} {position : Nat} {entry : Import}
    (coherent : (program.insertImport position entry).Coherent) : program.Coherent := by
  obtain ⟨imports, decls⟩ := program
  have inside : importsModules imports ⊆ importsModules (imports.insertIdx position entry) := by
    simp only [importsModules_eq_flatMap, List.subset_def, List.mem_flatMap]
    rintro shared ⟨other, member, below⟩
    exact ⟨other, List.subset_insertIdx imports position entry member, below⟩
  exact fun left leftIn right rightIn => coherent left (inside leftIn) right (inside rightIn)

section Checks

variable {additions : Additions} {program : Program} {shared : Module}

theorem Program.meetAll_insertImport {alone : DeclaredTypes}
    (met : DeclaredTypes.meetAll {} shared.program.typeEventsApart = .ok alone)
    (added : ∀ name, .declares name ∈ shared.program.typeEventsApart → name ∈ additions.objects)
    (unused : DeclaredTypes.Unused additions program.typeEventsApart) (path : String) (position : Nat) :
    EndAlike (DeclaredTypes.AgreeOff additions) (DeclaredTypes.meetAll {} program.typeEventsApart)
      (DeclaredTypes.meetAll {} (program.insertImport position ⟨path, some shared⟩).typeEventsApart) := by
  obtain ⟨imports, decls⟩ := program
  obtain ⟨id, inside⟩ := shared
  have agree : DeclaredTypes.AgreeOff additions {} {} := fun _ _ => rfl
  simp only [insertImport, typeEventsApart, DeclaredTypes.meetAll_append]
  have behind := importsMeetAll_insertIdx ⟨path, some ⟨id, inside⟩⟩ agree (fun _ known => known) met added
    (fun name used => unused name (List.mem_append_left _ used)) position
  apply behind.bind
  intro later otherLater _ _ agreeLater
  exact agreeLater.meetAll fun name used => unused name (List.mem_append_right _ used)

theorem Program.checkBodiesApart_insertImport {checkedShared : Program}
    (done : shared.program.checkBodiesApart = .ok checkedShared)
    (added : ∀ decl ∈ shared.program.exported, additions.Adds decl) (spared : additions.Spares program.names)
    (path : String) (position : Nat) :
    (program.insertImport position ⟨path, some shared⟩).checkBodiesApart =
      program.checkBodiesApart.map (insertImport position ⟨path, some ⟨shared.id, checkedShared⟩⟩) := by
  have sparedDecls : ∀ decl ∈ program.decls, additions.Spares decl.names :=
    fun decl member => spared.of_decl program.self_mem_programs member
  have environments :=
    Environment.ofProgram_insertImport added path spared.sparesImports sparedDecls position
  have own := mapM_congr_left fun decl member => Decl.checkBody_alike environments (sparedDecls decl member)
  have behind : Import.checkBodiesApart ⟨path, some shared⟩ = .ok ⟨path, some ⟨shared.id, checkedShared⟩⟩ := by
    obtain ⟨id, inside⟩ := shared
    exact (Import.checkBodiesApart_resolved_eq_ok_iff path id inside _).mpr ⟨checkedShared, done, rfl⟩
  obtain ⟨imports, decls⟩ := program
  simp only [insertImport] at own ⊢
  rw [checkBodiesApart, checkBodiesApart, importsCheckBodiesApart_insertIdx behind, own]
  cases importsCheckBodiesApart imports with
  | error error => rfl
  | ok checkedImports =>
    cases decls.mapM (Decl.checkBody (Environment.ofProgram ⟨imports, decls⟩)) <;> rfl

end Checks

/-- An import that nothing uses is harmless. Let a program pass the check on its own, and let neither the names
of the functions it exports nor those of the objects in it or behind its imports occur in another program. Then
it may be imported there anywhere: the check ends with the same error, or with the same tree and, behind the
new import, what the imported program comes to on its own. -/
theorem Program.check_insertImport {program : Program} {shared : Module} {checkedShared : Program}
    {position : Nat} (within : position ≤ program.imports.length) (path : String)
    (coherent : (program.insertImport position ⟨path, some shared⟩).Coherent)
    (accepted : shared.program.check = .ok checkedShared)
    (fresh : ∀ name ∈ shared.program.objectsInside, name ∉ Ty.builtinNames ∧ name ≠ Ty.real64.name)
    (unused : ∀ name ∈ program.names,
      name ∉ shared.program.exportedFunctions ∧ name ∉ shared.program.objectsInside) :
    (program.insertImport position ⟨path, some shared⟩).check =
      program.check.map (insertImport position ⟨path, some ⟨shared.id, checkedShared⟩⟩) := by
  have spared : (shared.program.additions fresh).Spares program.names := unused
  have sharedCoherent : shared.program.Coherent :=
    coherent.behindImport ((List.mem_insertIdx within).mpr (.inl rfl)) rfl
  obtain ⟨alone, met⟩ := meetAll_of_check sharedCoherent accepted
  have done := checkBodiesApart_of_check sharedCoherent accepted
  have events := meetAll_insertImport met (fun _ => adds_declared fresh) spared.unused path position
  have bodies := checkBodiesApart_insertImport done (adds_exported fresh) spared path position
  rw [check_eq_checkApart coherent, check_eq_checkApart coherent.of_insertImport]
  calc (program.insertImport position ⟨path, some shared⟩).checkApart
    _ = DeclaredTypes.meetAll {} (program.insertImport position ⟨path, some shared⟩).typeEventsApart >>= fun _ =>
          program.checkBodiesApart.map (insertImport position ⟨path, some ⟨shared.id, checkedShared⟩⟩) := by
        rw [checkApart, bodies]
    _ = DeclaredTypes.meetAll {} program.typeEventsApart >>= fun _ =>
          program.checkBodiesApart.map (insertImport position ⟨path, some ⟨shared.id, checkedShared⟩⟩) :=
        events.bind_eq _
    _ = program.checkApart.map (insertImport position ⟨path, some ⟨shared.id, checkedShared⟩⟩) := by
        rw [checkApart]
        cases DeclaredTypes.meetAll {} program.typeEventsApart <;> rfl

/-- A library with objects of its own is imported before the import that a function needs. The function is
wrong, and the check still says so. -/
theorem Program.check_insertImport_refused :
    let colors := Program.mk [] [.object { exported := true, name := "Color" }]
    let palette : ObjectDecl := { name := "Palette", properties := [⟨"first", .scalar "Color"⟩] }
    let library := Program.mk [⟨"colors", some ⟨0, colors⟩⟩]
      [.object palette, .function ⟨true, "mix", .scalar "Color", [⟨"palette", .scalar "Palette"⟩], []⟩]
    let shape : ObjectDecl := { exported := true, name := "Shape", properties := [⟨"size", .int32⟩] }
    let label := Expr.property (.var "shape" none) "label" none
    let main := FunctionDecl.mk false "main" .void [⟨"shape", .scalar "Shape"⟩]
      [.declare "text" .string (some label)]
    let program : Program := ⟨[⟨"shapes", some ⟨1, ⟨[], [.object shape]⟩⟩⟩], [.function main]⟩
    let entry : Import := ⟨"library", some ⟨2, library⟩⟩
    (program.insertImport 0 entry).Coherent ∧ library.Accepted ∧
      (∀ name ∈ library.objectsInside, name ∉ Ty.builtinNames ∧ name ≠ Ty.real64.name) ∧
      (∀ name ∈ program.names, name ∉ library.exportedFunctions ∧ name ∉ library.objectsInside) ∧
      program.check = .error (.semantic (.propertyMissing label.render)) ∧
      (program.insertImport 0 entry).check = .error (.semantic (.propertyMissing label.render)) := by
  intro colors palette library shape label main program entry
  have coherent : (program.insertImport 0 entry).Coherent := Program.coherent_of_nodup (by decide)
  have fresh : ∀ name ∈ library.objectsInside, name ∉ Ty.builtinNames ∧ name ≠ Ty.real64.name := by decide
  have unused : ∀ name ∈ program.names,
      name ∉ library.exportedFunctions ∧ name ∉ library.objectsInside := by decide
  have refused : program.check = .error (.semantic (.propertyMissing label.render)) := rfl
  refine ⟨coherent, ⟨_, rfl⟩, fresh, unused, refused, ?_⟩
  have same := Program.check_insertImport (Nat.zero_le _) "library" coherent rfl fresh unused
  rw [same, refused]
  rfl

end TypedTree
