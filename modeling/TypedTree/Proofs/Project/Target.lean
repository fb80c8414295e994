import TypedTree.Proofs.Project.Commands
/-! Where the output of a project stands. It is named after the package, and the name of a new package is the path
under which its project was made, so that it may lead out of the target directory, and out of what is cleaned. -/

namespace TypedTree

namespace Config

def targetPlace (project : Place) : Place := project ++ ["target"]

/-- The way from the target directory to the directory of the output of a package. -/
def outputCourse (name : String) : Course := .ofNames (FileTree.namesOf (name ++ ".json")).dropLast

/-- Whether the output of a package stays below the target directory of its project. A relative name must lead down
again through the levels that it leaves, an absolute one through all levels. -/
def StaysInTarget (project : Place) (name : String) : Prop :=
  if Path.isAbsolute name then targetPlace project <+: (outputCourse name).descent
  else (targetPlace project).drop ((targetPlace project).length - (outputCourse name).climbs) <+:
    (outputCourse name).descent

instance (project : Place) (name : String) : Decidable (StaysInTarget project name) :=
  inferInstanceAs (Decidable (if Path.isAbsolute name then targetPlace project <+: (outputCourse name).descent
    else (targetPlace project).drop ((targetPlace project).length - (outputCourse name).climbs) <+:
      (outputCourse name).descent))

theorem append_json_ne {other : String} (different : other.toList.getLast? ≠ some 'n') (name : String) :
    name ++ ".json" ≠ other := by
  rintro rfl
  simp at different

theorem namesOf_output (name : String) : ∃ before file, FileTree.namesOf (name ++ ".json") = before ++ [file] ∧
    (∀ place : Place, place.step file = place ++ [file]) ∧
      ∀ other : String, other.toList.getLast? ≠ some 'n' → file ≠ other := by
  obtain ⟨before, last, names⟩ := FileTree.namesOf_append name ".json" (by decide) (by decide)
  refine ⟨before, _, names, fun place => ?_, fun other different => append_json_ne different last⟩
  rw [Place.step, if_neg (append_json_ne (by decide) last), if_neg (append_json_ne (by decide) last)]

theorem isAbsolute_output (name : String) : Path.isAbsolute (name ++ ".json") = Path.isAbsolute name := by
  rw [Path.isAbsolute, Path.isAbsolute, String.toList_append]
  cases name.toList with
  | nil => decide
  | cons char chars => rfl

theorem isName_target : FileTree.IsName "target" :=
  ⟨by decide +kernel, by decide +kernel, by decide +kernel, by decide +kernel⟩

theorem placeOf_target (tree : FileTree) (root : String) :
    tree.placeOf (Path.join root "target") = targetPlace (tree.placeOf root) :=
  isName_target.placeOf_join tree root

/-- The output of a new package is below the target directory exactly if its name stays there. -/
theorem outputPath_isBelow_iff (tree : FileTree) (root name : String) :
    (tree.placeOf ((Config.new name).outputPath root)).IsBelow (targetPlace (tree.placeOf root)) ↔
      StaysInTarget (tree.placeOf root) name := by
  obtain ⟨before, file, names, step, unlike⟩ := namesOf_output name
  have other (project : Place) : (targetPlace project).getLast? ≠ some file := by
    rw [targetPlace, List.getLast?_concat]
    exact fun same => unlike "target" (by decide) (Option.some.inj same).symm
  have course : outputCourse name = .ofNames before := by rw [outputCourse, names, List.dropLast_concat]
  have output : (Config.new name).outputPath root = Path.join (Path.join root "target") (name ++ ".json") := rfl
  have last (place : Place) : place.lead (before ++ [file]) = place.lead before ++ [file] := by
    rw [Place.lead_append]
    exact step _
  rw [StaysInTarget, course, output]
  cases absolute : Path.isAbsolute name with
  | true =>
    have whole : Path.isAbsolute (name ++ ".json") = true := (isAbsolute_output name).trans absolute
    rw [Path.join_eq_self whole, FileTree.placeOf_absolute whole, names, last, Place.isBelow_append_iff (other _),
      Place.lead_root, if_pos rfl]
  | false =>
    have relative : Path.isAbsolute (name ++ ".json") = false := (isAbsolute_output name).trans absolute
    rw [FileTree.placeOf_join relative, placeOf_target, names, last, Place.isBelow_append_iff (other _),
      Place.prefix_lead_iff, if_neg Bool.false_ne_true]

theorem placeOf_outputPath_ne (tree : FileTree) (root name : String) (directory : Place) :
    tree.placeOf ((Config.new name).outputPath root) ≠ directory ++ [fileName] := by
  obtain ⟨before, file, names, step, unlike⟩ := namesOf_output name
  have output : (Config.new name).outputPath root = Path.join (Path.join root "target") (name ++ ".json") := rfl
  obtain ⟨start, placed⟩ : ∃ start : Place,
      tree.placeOf ((Config.new name).outputPath root) = start.lead (FileTree.namesOf (name ++ ".json")) := by
    rw [output]
    cases absolute : Path.isAbsolute (name ++ ".json") with
    | true => exact ⟨[], by rw [Path.join_eq_self absolute, FileTree.placeOf_absolute absolute]⟩
    | false => exact ⟨_, FileTree.placeOf_join absolute tree _⟩
  rw [placed, names, Place.lead_append]
  intro same
  have ends := congrArg List.getLast? ((step _).symm.trans same)
  rw [List.getLast?_concat, List.getLast?_concat] at ends
  exact unlike fileName (by decide) (Option.some.inj ends)

theorem staysInTarget_of_climbs {name : String} (relative : Path.isAbsolute name = false)
    (level : (outputCourse name).climbs = 0) (project : Place) : StaysInTarget project name := by
  rw [StaysInTarget, relative, if_neg Bool.false_ne_true, level, Nat.sub_zero, List.drop_length]
  exact List.nil_prefix

theorem staysInTarget_of_plain {name : String} (plain : '/' ∉ name.toList) (project : Place) :
    StaysInTarget project name := by
  have pieces : Path.pieces (name ++ ".json").toList = [(name ++ ".json").toList] :=
    Path.pieces_of_not_mem (by simp [plain])
  refine staysInTarget_of_climbs (Path.isAbsolute_of_plain plain) ?_ project
  rw [outputCourse, FileTree.namesOf, pieces]
  simp [Course.ofNames]

-- the target directory is left, but a directory of the same name is entered
example : StaysInTarget ["target", "app"] "../target/app" := by decide +kernel

end Config

section Cleaning

variable {memory later : Memory} {config : Config} {root name : String}

theorem Config.target_stands {tree : FileTree}
    (known : tree.target ((Config.new name).outputPath root) =
      .ok (some (tree.placeOf ((Config.new name).outputPath root))))
    (below : (tree.placeOf ((Config.new name).outputPath root)).IsBelow (Config.targetPlace (tree.placeOf root))) :
    tree.at? (Config.targetPlace (tree.placeOf root)) = some .directory := by
  have output : (Config.new name).outputPath root = Path.join (Path.join root "target") (name ++ ".json") := rfl
  obtain ⟨before, file, names, -, -⟩ := Config.namesOf_output name
  -- a relative name is seen from the target directory; an absolute one may lead through it anywhere
  cases absolute : Path.isAbsolute name with
  | true =>
    have whole : Path.isAbsolute ((Config.new name).outputPath root) = true := by
      rw [output, Path.isAbsolute_join, Config.isAbsolute_output, absolute, Bool.true_or]
    exact FileTree.isOpenTo_of_target whole known _ below
  | false =>
    have relative : Path.isAbsolute (name ++ ".json") = false := (Config.isAbsolute_output name).trans absolute
    rw [← Config.placeOf_target]
    rw [output] at known
    exact FileTree.at?_base_of_target relative (by simp [names]) known

theorem Project.IsFound.built (found : Project.IsFound memory (Config.new name) root)
    (here : memory.tree.current.map FileTree.pathOf = some root) (builds : Command.build.Succeeds memory later) :
    Project.IsFound later (Config.new name) root := by
  obtain ⟨checked, middle, -, extended, written⟩ := builds.built found
  have current : later.tree.current = memory.tree.current :=
    (FileTree.current_of_writeText written).trans extended.current
  obtain ⟨source, read, parsed⟩ := (Project.isFound_iff_of_current here).mp found
  obtain ⟨place, known⟩ := FileTree.readText_eq_ok_iff.mp read
  have config : place = memory.tree.placeOf root ++ [Config.fileName] :=
    (FileTree.find_eq_placeOf known).trans (placeOf_config memory.tree root)
  obtain ⟨-, -, -, stands⟩ := FileTree.find_eq_ok_iff.mp known
  have still : later.tree.at? place = some (.text source) := by
    rw [FileTree.at?_of_writeText written, if_neg, extended.stands _ _ stands]
    rw [config]
    exact (Config.placeOf_outputPath_ne middle root name _).symm
  have again := FileTree.find_of_kept current
    (fun upper stands => FileTree.directory_of_writeText written (extended.stands _ _ stands)) known still
  rw [Project.isFound_iff_of_current (by rw [current, here])]
  exact ⟨source, FileTree.readText_eq_ok_iff.mpr ⟨place, again⟩, parsed⟩

theorem Project.IsFound.clean_below {tree : FileTree} {text : String} (found : Project.IsFound memory config root)
    (written : tree.writeText ((Config.new name).outputPath root) text = .ok memory.tree)
    (below : (memory.tree.placeOf ((Config.new name).outputPath root)).IsBelow
      (Config.targetPlace (memory.tree.placeOf root))) :
    ∃ cleaned, Command.clean.Succeeds memory cleaned ∧
      cleaned.tree.at? (memory.tree.placeOf ((Config.new name).outputPath root)) = none := by
  have same := FileTree.placeOf_of_current (FileTree.current_of_writeText written)
  have stands : memory.tree.at? (Config.targetPlace (memory.tree.placeOf root)) = some .directory := by
    rw [same, same] at below
    rw [same, FileTree.at?_of_writeText written, if_neg below.2.symm]
    exact Config.target_stands (FileTree.writeText_eq_ok written).1 below
  -- the configuration stands beside the target directory, so that the way there can be followed
  obtain ⟨_, _, known⟩ := found.fileName
  rw [← Config.placeOf_target] at stands
  have there := FileTree.find_beside isName_fileName Config.isName_target (by decide +kernel) known stands
  obtain ⟨printed, cleans⟩ := Command.runIn_clean found
  rw [there] at cleans
  refine ⟨_, cleans, ?_⟩
  rw [Config.placeOf_target, FileTree.at?_removePlace (by simp [Config.targetPlace]), if_pos below.1]

theorem Project.IsFound.clean_beside {text : String} (found : Project.IsFound memory config root)
    (stands : memory.tree.at? (memory.tree.placeOf (config.outputPath root)) = some (.text text))
    (beside : ¬(memory.tree.placeOf (config.outputPath root)).IsBelow (Config.targetPlace (memory.tree.placeOf root))) :
    (Command.clean.runIn memory).2.tree.at? (memory.tree.placeOf (config.outputPath root)) = some (.text text) := by
  obtain ⟨printed, cleans⟩ := Command.runIn_clean found
  rw [cleans]
  rcases target : memory.tree.find (Path.join root "target") with fault | ⟨place, _ | _⟩
  · exact stands
  · exact stands
  · obtain ⟨_, -, -, directory⟩ := FileTree.find_eq_ok_iff.mp target
    have named : place = Config.targetPlace (memory.tree.placeOf root) :=
      (FileTree.find_eq_placeOf target).trans (Config.placeOf_target memory.tree root)
    -- a text is no directory
    have apart : memory.tree.placeOf (config.outputPath root) ≠ place := by
      intro same
      rw [same, directory] at stands
      cases stands
    rw [FileTree.at?_removePlace (by simp [named, Config.targetPlace]), if_neg, stands]
    exact fun above => beside ⟨named ▸ above, named ▸ apart⟩

end Cleaning

/-- The output of a project that is made in the current directory is always below its target directory. -/
theorem Command.init_output {memory created : Memory} (made : Command.init.Succeeds memory created) :
    ∃ place name, memory.tree.current = some place ∧
      created.tree.at? (memory.tree.placeOf (FileTree.pathOf place) ++ [Config.fileName]) =
        some (.text (Config.new name).toText) ∧ ∀ project, Config.StaysInTarget project name := by
  obtain ⟨place, current, stands⟩ := made.initialized
  refine ⟨place, _, current, stands, Config.staysInTarget_of_plain ?_⟩
  cases named : Path.fileName? (FileTree.pathOf place) with
  | none => decide
  | some name => exact Path.plain_of_fileName? named

/-- A new project's configuration stands where the name of the project leads. Its output is below the target directory
of the project exactly if the name stays there. In any case a build writes the tree to the output, and a build in the
project's directory does not keep commands from finding the configuration again. A clean that follows removes an output
below the target directory, and keeps any other one. -/
theorem Command.new_output {name : String} {memory created : Memory}
    (made : (Command.new name).Succeeds memory created) :
    let project := memory.tree.placeOf name
    let config := Config.new name
    created.tree.at? (project ++ [Config.fileName]) = some (.text config.toText) ∧
    (∀ (tree : FileTree) root, tree.placeOf root = project →
      ((tree.placeOf (config.outputPath root)).IsBelow (Config.targetPlace project) ↔
        Config.StaysInTarget project name)) ∧
    ∀ before built root, Project.IsFound before config root → before.tree.placeOf root = project →
      Command.build.Succeeds before built →
        (∃ checked, before.tree.checked (config.entryPath root) = .ok checked ∧
          built.tree.at? (before.tree.placeOf (config.outputPath root)) = some (.text (checked.decoratedText true))) ∧
        (before.tree.current.map FileTree.pathOf = some root → Project.IsFound built config root) ∧
        (Project.IsFound built config root → if Config.StaysInTarget project name
          then ∃ cleaned, Command.clean.Succeeds built cleaned ∧
            cleaned.tree.at? (before.tree.placeOf (config.outputPath root)) = none
          else (Command.clean.runIn built).2.tree.at? (before.tree.placeOf (config.outputPath root)) =
            built.tree.at? (before.tree.placeOf (config.outputPath root))) := by
  intro project config
  refine ⟨made.created, fun tree root same => ?_, fun before built root found same builds => ?_⟩
  · rw [← same]
    exact Config.outputPath_isBelow_iff tree root name
  · obtain ⟨checked, middle, known, extended, written⟩ := builds.built found
    have current : built.tree.current = before.tree.current :=
      (FileTree.current_of_writeText written).trans extended.current
    have output : built.tree.at? (before.tree.placeOf (config.outputPath root)) =
        some (.text (checked.decoratedText true)) := by
      rw [FileTree.at?_of_writeText written, extended.placeOf, if_pos rfl]
      rfl
    refine ⟨⟨checked, known, output⟩, fun here => found.built here builds, fun foundAgain => ?_⟩
    have rootPlace : built.tree.placeOf root = project := (FileTree.placeOf_of_current current root).trans same
    have stays := Config.outputPath_isBelow_iff built.tree root name
    rw [← FileTree.placeOf_of_current current] at output ⊢
    rw [← rootPlace]
    split
    next inside => exact foundAgain.clean_below written (stays.mpr inside)
    next outside => rw [output, foundAgain.clean_beside output (mt stays.mp outside)]

/-- A project that is made beside the current directory. Its target directory is left on the way to its output, which
a build writes all the same, and a clean keeps. -/
theorem Command.new_output_beside :
    let start : Memory := { tree := { entries := ⟨[(["work"], .directory)]⟩, current := some ["work"] } }
    let config := Config.new "../app"
    let before : Memory := { tree := {
      entries := ⟨[(["app", "mlang.toml"], .text config.toText), (["app", "src", "main.json"],
        .text "\x7b\"nodes\": []\x7d"), (["app", "src"], .directory), (["app"], .directory)]⟩
      current := some ["app"] } }
    ∃ created built cleaned, (Command.new "../app").Succeeds start created ∧ Project.IsFound before config "/app" ∧
      Command.build.Succeeds before built ∧ Project.IsFound built config "/app" ∧
      Command.clean.Succeeds built cleaned ∧ created.tree.at? ["app", "mlang.toml"] = some (.text config.toText) ∧
      ¬Place.IsBelow ["app", "app.json"] ["app", "target"] ∧
      ∃ text, built.tree.at? ["app", "app.json"] = some (.text text) ∧
        cleaned.tree.at? ["app", "app.json"] = some (.text text) := by
  intro start config before
  let built := (Command.build.runIn before).2
  have made := Command.succeeds_of_toOption (.new "../app") start (by decide +kernel)
  have found : Project.IsFound before config "/app" := Project.isFound_of_toOption (by decide +kernel)
  have builds : Command.build.Succeeds before built := Command.succeeds_of_toOption .build before (by decide +kernel)
  have cleans := Command.succeeds_of_toOption .clean built (by decide +kernel)
  have project : start.tree.placeOf "../app" = ["app"] := by decide +kernel
  have root : before.tree.placeOf "/app" = ["app"] := by decide +kernel
  have output : before.tree.placeOf (config.outputPath "/app") = ["app", "app.json"] := by decide +kernel
  obtain ⟨written, inside, outcome⟩ := Command.new_output made
  obtain ⟨⟨checked, -, stands⟩, again, kept⟩ := outcome before built "/app" found (root.trans project.symm) builds
  have foundAgain : Project.IsFound built config "/app" := again (by decide +kernel)
  have left : ¬Config.StaysInTarget ["app"] "../app" := by decide +kernel
  have below := inside before.tree "/app" (root.trans project.symm)
  have still := kept foundAgain
  rw [project] at written below still
  rw [if_neg left] at still
  rw [output] at below stands still
  exact ⟨_, built, _, made, found, builds, foundAgain, cleans, written, mt below.mp left, _, stands, still.trans stands⟩

end TypedTree
