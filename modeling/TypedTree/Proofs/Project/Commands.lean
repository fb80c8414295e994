import TypedTree.Project.Command
import TypedTree.Proofs.Project.Memory
import TypedTree.Proofs.Project.Output
/-! What commands leave behind in memory if they end well. -/

namespace TypedTree

section Adding

variable {α β : Type}

def OnlyAdds (part : StateM Memory α) : Prop := ∀ memory, (part.run memory).2.tree.Extends memory.tree

theorem onlyAdds_pure (value : α) : OnlyAdds (pure value) := fun memory => .refl memory.tree

theorem OnlyAdds.bind {part : StateM Memory α} {next : α → StateM Memory β} (adds : OnlyAdds part)
    (further : ∀ value, OnlyAdds (next value)) : OnlyAdds (part >>= next) := by
  intro memory
  have ran : part.run memory = ((part.run memory).1, (part.run memory).2) := rfl
  rw [run_bind_of_run ran]
  exact (further _ _).trans (adds memory)

theorem onlyAdds_makeDirectory (path : String) : OnlyAdds (MonadFiles.makeDirectory path) := by
  intro memory
  change (Memory.change (fun tree => tree.makeDirectory path) memory).2.tree.Extends memory.tree
  rw [Memory.change]
  cases made : memory.tree.makeDirectory path with
  | error fault => exact .refl memory.tree
  | ok tree => exact FileTree.makeDirectory_extends made

theorem onlyAdds_isDirectory (path : String) : OnlyAdds (MonadFiles.isDirectory path) := fun memory => .refl memory.tree

theorem onlyAdds_ensureDirectory (path : String) : OnlyAdds (MonadFiles.ensureDirectory path) := by
  refine (onlyAdds_makeDirectory path).bind fun made => ?_
  cases made with
  | ok => exact onlyAdds_pure _
  | error fault =>
    refine (onlyAdds_isDirectory path).bind fun present => ?_
    cases present <;> exact onlyAdds_pure _

theorem onlyAdds_ensureDirectoriesWithin (depth : Nat) (path : String) :
    OnlyAdds (MonadFiles.ensureDirectoriesWithin depth path) := by
  induction depth generalizing path with
  | zero => exact onlyAdds_ensureDirectory path
  | succ depth ih =>
    rw [MonadFiles.ensureDirectoriesWithin]
    split
    · exact onlyAdds_pure _
    · refine (onlyAdds_ensureDirectory path).bind fun made => ?_
      split
      · split
        · exact onlyAdds_pure _
        next parent _ =>
          refine (ih parent).bind fun ready => ?_
          cases ready with
          | error fault => exact onlyAdds_pure _
          | ok => exact onlyAdds_ensureDirectory path
      · exact onlyAdds_pure _

theorem onlyAdds_ensureDirectories (path : String) : OnlyAdds (MonadFiles.ensureDirectories path) :=
  onlyAdds_ensureDirectoriesWithin _ path

end Adding

section Succeeding

variable {α β : Type} {memory : Memory} {holds : α → Memory → Prop} {holdsNext : β → Memory → Prop}

def Gives (part : ExceptT Failure (StateM Memory) α) (memory : Memory) (holds : α → Memory → Prop) : Prop :=
  ∀ value later, part.run.run memory = (.ok value, later) → holds value later

theorem gives_pure {value : α} (held : holds value memory) : Gives (pure value) memory holds := by
  intro other later ran
  cases ran
  exact held

theorem gives_throw (failure : Failure) : Gives (throw failure) memory holds := by
  intro value later ran
  cases ran

theorem run_bind_of_ok {part : ExceptT Failure (StateM Memory) α} {next : α → ExceptT Failure (StateM Memory) β}
    {value : α} {later : Memory} (ran : part.run.run memory = (.ok value, later)) :
    (part >>= next).run.run memory = (next value).run.run later := by
  rw [ExceptT.run_bind, StateT.run_bind, ran]
  rfl

theorem run_bind_of_error {part : ExceptT Failure (StateM Memory) α} {next : α → ExceptT Failure (StateM Memory) β}
    {failure : Failure} {later : Memory} (ran : part.run.run memory = (.error failure, later)) :
    (part >>= next).run.run memory = (.error failure, later) := by
  rw [ExceptT.run_bind, StateT.run_bind, ran]
  rfl

theorem Gives.bind {part : ExceptT Failure (StateM Memory) α} {next : α → ExceptT Failure (StateM Memory) β}
    (gives : Gives part memory holds)
    (further : ∀ value later, holds value later → Gives (next value) later holdsNext) :
    Gives (part >>= next) memory holdsNext := by
  intro value later ran
  rcases first : part.run.run memory with ⟨failure | given, middle⟩
  · rw [run_bind_of_error first] at ran
    cases ran
  · rw [run_bind_of_ok first] at ran
    exact further given middle (gives given middle first) value later ran

theorem Gives.mono {part : ExceptT Failure (StateM Memory) α} {weaker : α → Memory → Prop}
    (gives : Gives part memory holds) (weaken : ∀ value later, holds value later → weaker value later) :
    Gives part memory weaker := fun value later ran => weaken value later (gives value later ran)

theorem gives_lift {action : StateM Memory α} (held : holds (action.run memory).1 (action.run memory).2) :
    Gives (liftM action) memory holds := by
  intro value later ran
  cases ran
  exact held

theorem run_attempt_of_run {operation : StateM Memory (Except FileFault α)} {result : Except FileFault α}
    {later : Memory} (ran : operation.run memory = (result, later)) (what : Attempt) :
    (attempt what operation).run.run memory = (result.mapError (.ofFault what), later) := by
  have lifted : (liftM operation : ExceptT Failure (StateM Memory) (Except FileFault α)).run.run memory =
      (.ok (operation.run memory).1, (operation.run memory).2) := rfl
  rw [ran] at lifted
  rw [attempt, run_bind_of_ok lifted]
  cases result <;> rfl

theorem gives_attempt {what : Attempt} {operation : StateM Memory (Except FileFault α)}
    (held : ∀ value later, operation.run memory = (.ok value, later) → holds value later) :
    Gives (attempt what operation) memory holds := by
  intro value later ran
  rcases first : operation.run memory with ⟨result, middle⟩
  rw [run_attempt_of_run first] at ran
  cases result <;> cases ran
  exact held _ _ first

theorem gives_isPresent (path : String) : Gives (isPresent path) memory fun present later =>
    later = memory ∧ (present = true ↔ ∃ place stored, memory.tree.find path = .ok (place, stored)) := by
  refine gives_lift ⟨rfl, ?_⟩
  change (memory.tree.find path).toOption.isSome = true ↔ _
  cases memory.tree.find path with
  | error fault => simp [Except.toOption]
  | ok known => exact iff_of_true rfl ⟨known.1, known.2, rfl⟩

theorem run_isPresent (path : String) (memory : Memory) :
    (isPresent path : ExceptT Failure (StateM Memory) Bool).run.run memory =
      (.ok (memory.tree.find path).toOption.isSome, memory) := rfl

theorem Gives.during {what : Attempt} {part : ExceptT Failure (StateM Memory) α} (gives : Gives part memory holds) :
    Gives (during what part) memory holds := by
  intro value later ran
  rcases first : part.run.run memory with ⟨error | given, middle⟩ <;>
    rw [TypedTree.during, ExceptT.run_mk, run_bind_of_run first] at ran <;> cases ran
  exact gives _ _ first

theorem run_change (change : FileTree → Except FileFault FileTree) (memory : Memory) :
    (Memory.change change).run memory = (match change memory.tree with
      | .ok tree => (.ok (), { memory with tree })
      | .error fault => (.error fault, memory)) := rfl

theorem run_change_eq_ok {change : FileTree → Except FileFault FileTree} {later : Memory}
    (ran : (Memory.change change).run memory = (.ok (), later)) : change memory.tree = .ok later.tree := by
  rw [run_change] at ran
  cases changed : change memory.tree <;> rw [changed] at ran <;> cases ran
  rfl

def OnlyPrints (part : ExceptT Failure (StateM Memory) α) : Prop :=
  ∀ memory, Gives part memory fun _ later => later.tree = memory.tree

theorem onlyPrints_printLine (line : String) : OnlyPrints (MonadConsole.printLine line) :=
  fun _ => gives_lift rfl

theorem onlyPrints_clock : OnlyPrints MonadConsole.clock := fun _ => gives_lift rfl

theorem OnlyPrints.bind {part : ExceptT Failure (StateM Memory) α} {next : α → ExceptT Failure (StateM Memory) β}
    (prints : OnlyPrints part) (further : ∀ value, OnlyPrints (next value)) : OnlyPrints (part >>= next) :=
  fun memory => (prints memory).bind fun value later same => (further value later).mono fun _ _ kept => kept.trans same

theorem onlyPrints_pure (value : α) : OnlyPrints (pure value) := fun _ => gives_pure rfl

theorem onlyPrints_announce (name : String) (steps : List String) : OnlyPrints (Command.announce name steps) := by
  refine (onlyPrints_printLine _).bind fun _ => (onlyPrints_printLine _).bind fun _ =>
    (onlyPrints_printLine _).bind fun _ => OnlyPrints.bind ?_ fun _ => onlyPrints_pure _
  induction steps with
  | nil => exact onlyPrints_pure _
  | cons step steps ih =>
    rw [List.forIn_cons]
    refine ((onlyPrints_printLine _).bind fun _ => onlyPrints_pure _).bind fun next => ?_
    cases next with
    | done => exact onlyPrints_pure _
    | yield => exact ih

theorem onlyPrints_printTimed (result : String) (start : Nat) : OnlyPrints (Command.printTimed result start) :=
  onlyPrints_clock.bind fun _ => onlyPrints_printLine _

end Succeeding

section Projects

variable {memory : Memory}

theorem gives_ensureParent {α : Type} {holds : α → Memory → Prop} (what : String → Attempt) (path : String)
    {rest : Unit → ExceptT Failure (StateM Memory) α}
    (further : ∀ later, later.tree.Extends memory.tree → Gives (rest ()) later holds) :
    Gives (match Path.parent? path with
      | some parent => do
        let made ← attempt (what parent) (MonadFiles.ensureDirectories parent)
        rest made
      | _ => rest ()) memory holds := by
  cases Path.parent? path with
  | none => exact further memory (.refl memory.tree)
  | some parent =>
    have made : Gives (attempt (what parent) (MonadFiles.ensureDirectories parent)) memory fun _ later =>
        later.tree.Extends memory.tree := by
      refine gives_attempt fun _ later ran => ?_
      have adds := onlyAdds_ensureDirectories parent memory
      rwa [ran] at adds
    exact made.bind fun _ => further

theorem gives_writeText (what : Attempt) (path content : String) (memory : Memory) :
    Gives (attempt what (MonadFiles.writeText path content)) memory fun _ later =>
      memory.tree.writeText path content = .ok later.tree :=
  gives_attempt fun _ _ ran => run_change_eq_ok ran

theorem isName_fileName : FileTree.IsName Config.fileName :=
  ⟨by decide +kernel, by decide +kernel, by decide +kernel, by decide +kernel⟩

theorem placeOf_config (tree : FileTree) (directory : String) :
    tree.placeOf (Path.join directory Config.fileName) = tree.placeOf directory ++ [Config.fileName] :=
  isName_fileName.placeOf_join tree directory

theorem placeOf_entry (tree : FileTree) (directory name : String) :
    tree.placeOf ((Config.new name).entryPath directory) = tree.placeOf directory ++ ["src", "main.json"] := by
  have relative : Path.isAbsolute "src/main.json" = false := by decide +kernel
  have names : FileTree.namesOf "src/main.json" = ["src", "main.json"] := by decide +kernel
  change tree.placeOf (Path.join directory "src/main.json") = _
  rw [FileTree.placeOf_join relative, names]
  simp [Place.lead, Place.step]

theorem gives_create (directory name : String) (memory : Memory) :
    Gives (Project.create directory name) memory fun _ later => later.tree.current = memory.tree.current ∧
      later.tree.at? (memory.tree.placeOf directory ++ [Config.fileName]) = some (.text (Config.new name).toText) := by
  unfold Project.create
  refine gives_ensureParent .createDirectory ((Config.new name).entryPath directory) fun middle extended => ?_
  refine (gives_writeText _ _ _ middle).bind fun _ saved written => ?_
  have current : saved.tree.current = memory.tree.current :=
    (FileTree.current_of_writeText written).trans extended.current
  have config : saved.tree.at? (memory.tree.placeOf directory ++ [Config.fileName]) =
      some (.text (Config.new name).toText) := by
    rw [FileTree.at?_of_writeText written, placeOf_config, extended.placeOf, if_pos rfl]
  refine (gives_isPresent _).bind fun present later same => ?_
  obtain ⟨rfl, -⟩ := same
  split
  · exact gives_pure ⟨current, config⟩
  · refine (gives_writeText _ _ _ later).mono fun _ made entry => ?_
    refine ⟨(FileTree.current_of_writeText entry).trans current, ?_⟩
    -- the entry program stands deeper than the configuration
    have apart : memory.tree.placeOf directory ++ [Config.fileName] ≠
        later.tree.placeOf ((Config.new name).entryPath directory) := by
      intro same
      have lengths := congrArg List.length same
      rw [placeOf_entry, FileTree.placeOf_of_current current] at lengths
      simp at lengths
    rw [FileTree.at?_of_writeText entry, if_neg apart, config]

def FileTree.configIn (tree : FileTree) (file : String) : Except Failure Config :=
  match tree.readText file with
  | .error fault => .error (.ofFault (.read file) fault)
  | .ok source =>
    match Config.ofText? source with
    | some config => .ok config
    | none => .error ⟨[.parse Config.fileName], .config⟩

theorem FileTree.configIn_eq_ok_iff {tree : FileTree} {file : String} {config : Config} :
    tree.configIn file = .ok config ↔
      ∃ source, tree.readText file = .ok source ∧ Config.ofText? source = some config := by
  rw [configIn]
  cases tree.readText file with
  | error fault => simp only [reduceCtorEq, false_and, exists_false]
  | ok source =>
    simp only [Except.ok.injEq, exists_eq_left']
    cases Config.ofText? source <;> simp only [reduceCtorEq, Except.ok.injEq, Option.some.injEq]

theorem run_load (file : String) (memory : Memory) :
    (Config.load file : ExceptT Failure (StateM Memory) Config).run.run memory =
      (memory.tree.configIn file, memory) := by
  rw [Config.load, FileTree.configIn]
  have ran : (MonadFiles.readText file : StateM Memory _).run memory = (memory.tree.readText file, memory) := rfl
  cases read : memory.tree.readText file <;> rw [read] at ran
  case error fault => exact run_bind_of_error (run_attempt_of_run ran _)
  case ok source =>
    refine (run_bind_of_ok (run_attempt_of_run ran _)).trans ?_
    simp only
    cases Config.ofText? source <;> rfl

theorem gives_findFrom (depth : Nat) (directory : String) : Gives (Config.findFrom depth directory) memory
    fun found later => later = memory ∧
      ∃ place stored, memory.tree.find (Path.join found.2 Config.fileName) = .ok (place, stored) := by
  induction depth generalizing directory with
  | zero => exact gives_throw _
  | succ depth ih =>
    rw [Config.findFrom]
    refine (gives_isPresent _).bind fun present later same => ?_
    obtain ⟨rfl, known⟩ := same
    split
    next there =>
      have loaded : Gives (Config.load (Path.join directory Config.fileName)) later fun _ after => after = later :=
        fun _ _ ran => (congrArg Prod.snd ((run_load _ _).symm.trans ran)).symm
      exact loaded.bind fun config after same => gives_pure ⟨same, known.mp there⟩
    · split
      · exact ih _
      · exact gives_throw _

theorem run_findFrom_of_present (depth : Nat) {directory : String}
    (present : (memory.tree.find (Path.join directory Config.fileName)).toOption.isSome = true) :
    (Config.findFrom (depth + 1) directory : ExceptT Failure (StateM Memory) _).run.run memory =
      ((memory.tree.configIn (Path.join directory Config.fileName)).map fun config => (config, directory), memory) := by
  have loads := run_load (Path.join directory Config.fileName) memory
  rw [Config.findFrom, run_bind_of_ok (run_isPresent _ _), if_pos present]
  cases read : memory.tree.configIn (Path.join directory Config.fileName) <;> rw [read] at loads
  case error failure => exact run_bind_of_error loads
  case ok config => exact run_bind_of_ok loads

theorem gives_find : Gives Project.find memory fun found later => later = memory ∧
    ∃ place stored, memory.tree.find (Path.join found.2 Config.fileName) = .ok (place, stored) := by
  refine Gives.during (Gives.bind (gives_attempt fun _ later ran => (congrArg Prod.snd ran).symm) ?_)
  intro directory later same
  subst same
  exact gives_findFrom _ _

end Projects

/-- How a command ends with files in memory, and how it leaves them. -/
def Command.runIn (command : Command) (memory : Memory) : Except Failure Unit × Memory :=
  (command.run : ExceptT Failure (StateM Memory) Unit).run.run memory

/-- A command ends well with files in memory, and leaves them so. -/
def Command.Succeeds (command : Command) (memory later : Memory) : Prop := command.runIn memory = (.ok (), later)

theorem Command.succeeds_of_toOption (command : Command) (memory : Memory)
    (ends : (command.runIn memory).1.toOption = some ()) : command.Succeeds memory (command.runIn memory).2 := by
  rw [Succeeds]
  generalize command.runIn memory = ran at ends ⊢
  rcases ran with ⟨failure | _, later⟩
  · cases ends
  · rfl

/-- A configuration and its directory are what commands find in memory. -/
def Project.IsFound (memory : Memory) (config : Config) (root : String) : Prop :=
  (Project.find : ExceptT Failure (StateM Memory) _).run.run memory = (.ok (config, root), memory)

section Commands

variable {memory later : Memory} {config : Config} {root name : String}

theorem run_currentDirectory {place : Place} (current : memory.tree.current = some place) :
    (MonadFiles.currentDirectory : StateM Memory _).run memory = (.ok (FileTree.pathOf place), memory) := by
  simp only [MonadFiles.currentDirectory, StateT.run, current]

theorem Project.isFound_of_toOption
    (finds : ((Project.find : ExceptT Failure (StateM Memory) _).run.run memory).1.toOption = some (config, root)) :
    Project.IsFound memory config root := by
  rw [IsFound]
  rcases ran : (Project.find : ExceptT Failure (StateM Memory) _).run.run memory with ⟨failure | found, later⟩
  · rw [ran] at finds
    cases finds
  · rw [ran] at finds
    cases finds
    rw [(gives_find _ _ ran).1]

theorem Project.IsFound.fileName (found : Project.IsFound memory config root) :
    ∃ place stored, memory.tree.find (Path.join root Config.fileName) = .ok (place, stored) :=
  (gives_find _ _ found).2

/-- In the directory of a project it is the text of its configuration that decides what commands find. -/
theorem Project.isFound_iff_of_current (here : memory.tree.current.map FileTree.pathOf = some root) :
    Project.IsFound memory config root ↔
      ∃ source, memory.tree.readText (Path.join root Config.fileName) = .ok source ∧
        Config.ofText? source = some config := by
  rw [← FileTree.configIn_eq_ok_iff]
  obtain ⟨place, current, rfl⟩ := Option.map_eq_some_iff.mp here
  have stands := run_attempt_of_run (run_currentDirectory current) .findDirectory
  -- the configuration is looked for in the current directory first
  have finds (present : (memory.tree.find (Path.join (FileTree.pathOf place) Config.fileName)).toOption.isSome = true) :
      (Project.find : ExceptT Failure (StateM Memory) _).run.run memory =
        (((memory.tree.configIn (Path.join (FileTree.pathOf place) Config.fileName)).map
          fun config => (config, FileTree.pathOf place)).mapError (Failure.during .findProject), memory) := by
    have first : (Config.find : ExceptT Failure (StateM Memory) _).run.run memory = _ :=
      (run_bind_of_ok stands).trans (run_findFrom_of_present _ present)
    rw [Project.find, during, ExceptT.run_mk, run_bind_of_run first]
    rfl
  constructor
  · intro found
    obtain ⟨_, _, known⟩ := found.fileName
    have same := (finds (by rw [known]; rfl)).symm.trans found
    cases read : memory.tree.configIn (Path.join (FileTree.pathOf place) Config.fileName) <;> rw [read] at same <;>
      cases same
    rfl
  · intro read
    obtain ⟨_, text, -⟩ := FileTree.configIn_eq_ok_iff.mp read
    obtain ⟨_, known⟩ := FileTree.readText_eq_ok_iff.mp text
    rw [IsFound, finds (by rw [known]; rfl), read]
    rfl

theorem Project.IsFound.gives (found : Project.IsFound memory config root) :
    Gives Project.find memory fun value later => value = (config, root) ∧ later = memory := by
  intro value later ran
  cases ran.symm.trans found
  exact ⟨rfl, rfl⟩

theorem gives_buildFile (file : String) (optimize : Bool) (memory : Memory) :
    Gives (ExceptT.mk (buildFile file optimize)) memory fun text later =>
      later = memory ∧ ∃ checked, memory.tree.checked file = .ok checked ∧ text = checked.decoratedText optimize := by
  intro text later ran
  rw [ExceptT.run_mk, run_buildFile] at ran
  cases found : memory.tree.checked file with
  | error failure =>
    rw [found] at ran
    cases ran
  | ok checked =>
    rw [found] at ran
    cases ran
    exact ⟨rfl, checked, rfl, rfl⟩

theorem Command.Succeeds.created (made : (Command.new name).Succeeds memory later) :
    later.tree.at? (memory.tree.placeOf name ++ [Config.fileName]) = some (.text (Config.new name).toText) := by
  have gives : Gives (Command.runNew name) memory fun _ later =>
      later.tree.at? (memory.tree.placeOf name ++ [Config.fileName]) = some (.text (Config.new name).toText) := by
    unfold Command.runNew
    refine (gives_isPresent name).bind fun present same known => ?_
    obtain ⟨rfl, -⟩ := known
    split
    · intro value after ran
      cases ran
    · refine (gives_create name name same).bind fun _ made put => ?_
      exact (onlyPrints_announce _ _ made).mono fun _ _ kept => by rw [kept]; exact put.2
  exact gives _ _ made

theorem Command.Succeeds.initialized (made : Command.init.Succeeds memory later) :
    ∃ place, memory.tree.current = some place ∧
      later.tree.at? (memory.tree.placeOf (FileTree.pathOf place) ++ [Config.fileName]) = some (.text
        (Config.new ((Path.fileName? (FileTree.pathOf place)).getD "mlang-project")).toText) := by
  have gives : Gives Command.runInit memory fun _ later => ∃ place, memory.tree.current = some place ∧
      later.tree.at? (memory.tree.placeOf (FileTree.pathOf place) ++ [Config.fileName]) = some (.text
        (Config.new ((Path.fileName? (FileTree.pathOf place)).getD "mlang-project")).toText) := by
    unfold Command.runInit
    have stands : Gives (attempt .findDirectory MonadFiles.currentDirectory) memory fun directory after =>
        after = memory ∧ ∃ place, memory.tree.current = some place ∧ directory = FileTree.pathOf place := by
      refine gives_attempt fun directory after ran => ?_
      simp only [MonadFiles.currentDirectory, StateT.run] at ran
      cases current : memory.tree.current <;> rw [current] at ran <;> cases ran
      exact ⟨rfl, _, rfl, rfl⟩
    refine stands.bind fun directory after known => ?_
    obtain ⟨rfl, place, current, rfl⟩ := known
    refine (gives_isPresent _).bind fun present same known => ?_
    obtain ⟨rfl, -⟩ := known
    split
    · intro value last ran
      cases ran
    · refine (gives_create _ _ same).bind fun _ made put => ?_
      exact (onlyPrints_announce _ _ made).mono fun _ _ kept => ⟨place, current, by rw [kept]; exact put.2⟩
  exact gives _ _ made

/-- A build writes the text of the checked program to the output, having made directories at most. -/
theorem Command.Succeeds.built (built : Command.build.Succeeds memory later)
    (found : Project.IsFound memory config root) :
    ∃ checked middle, memory.tree.checked (config.entryPath root) = .ok checked ∧
      FileTree.Extends middle memory.tree ∧
        middle.writeText (config.outputPath root) (checked.decoratedText config.check.optimize) = .ok later.tree := by
  have gives : Gives Command.runBuild memory fun _ later => ∃ checked middle,
      memory.tree.checked (config.entryPath root) = .ok checked ∧ FileTree.Extends middle memory.tree ∧
        middle.writeText (config.outputPath root) (checked.decoratedText config.check.optimize) = .ok later.tree := by
    unfold Command.runBuild
    refine found.gives.bind fun value same known => ?_
    obtain ⟨rfl, rfl⟩ := known
    refine (onlyPrints_clock same).bind fun start started kept => ?_
    refine (onlyPrints_printLine _ started).bind fun _ printed keptOn => ?_
    have files : printed.tree = same.tree := keptOn.trans kept
    refine (gives_buildFile _ _ printed).bind fun text after read => ?_
    obtain ⟨rfl, checked, known, rfl⟩ := read
    rw [files] at known
    refine gives_ensureParent .create (config.outputPath root) fun middle extended => ?_
    refine (gives_writeText _ _ _ middle).bind fun _ put written => ?_
    refine (onlyPrints_printTimed _ _ put).mono fun _ last keptLast => ?_
    exact ⟨checked, middle.tree, known, files ▸ extended, keptLast.symm ▸ written⟩
  exact gives _ _ built

/-- A clean removes the target directory with all that is in it. If something else stands in its place the clean fails,
and if nothing does it ends well; both change no files. -/
theorem Command.runIn_clean (found : Project.IsFound memory config root) :
    ∃ printed, Command.clean.runIn memory = (match memory.tree.find (Path.join root "target") with
      | .ok (place, .directory) => (.ok (), { tree := memory.tree.removePlace place, printed })
      | .ok (_, .text _) =>
        (.error (.ofFault (.remove (Path.join root "target")) .notDirectory), { memory with printed })
      | .error _ => (.ok (), { memory with printed })) := by
  have finds : (Project.find : ExceptT Failure (StateM Memory) _).run.run memory = (.ok (config, root), memory) := found
  obtain ⟨told, status⟩ : ∃ told, (printStatus "Cleaning" config root : ExceptT Failure (StateM Memory) Unit).run.run
      memory = (.ok (), { memory with printed := told }) := ⟨_, rfl⟩
  have run : Command.clean.runIn memory = _ := (run_bind_of_ok finds).trans
    ((run_bind_of_ok status).trans (run_bind_of_ok (run_isPresent (Path.join root "target") _)))
  have removes := run_change (fun tree => tree.removeDirectory (Path.join root "target"))
    { memory with printed := told }
  rw [FileTree.removeDirectory] at removes
  rw [run]
  cases known : memory.tree.find (Path.join root "target") with
  | error fault => exact ⟨_, rfl⟩
  | ok target =>
    obtain ⟨place, stored⟩ := target
    cases stored with
    | directory => exact ⟨_, run_bind_of_ok (run_attempt_of_run (removes.trans (by rw [known]; rfl)) _)⟩
    | text content => exact ⟨_, run_bind_of_error (run_attempt_of_run (removes.trans (by rw [known]; rfl)) _)⟩

end Commands

end TypedTree
