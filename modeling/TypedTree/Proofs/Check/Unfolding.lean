import TypedTree.Proofs.Check.Recheck
import Mathlib.Data.List.Nodup
/-! A check cannot tell whether imports share their programs. The content of a tree says everything but
which imports share; unfolding gives every import a program of its own and keeps the content. -/

namespace TypedTree

mutual

/-- The content of a program: all shared programs have the same identity, which says nothing. -/
def Program.content : Program → Program
  | ⟨imports, decls⟩ => ⟨importsContent imports, decls⟩

def importsContent : List Import → List Import
  | [] => []
  | entry :: imports => Import.content entry :: importsContent imports

def Import.content : Import → Import
  | ⟨path, target⟩ => ⟨path, targetContent target⟩

def targetContent : Option Module → Option Module
  | none => none
  | some shared => some (Module.content shared)

def Module.content : Module → Module
  | ⟨_, program⟩ => ⟨0, program.content⟩

end

/-- The unfolding of a program has its content, and no two of its imports, at any depth, share a
program. -/
structure Program.Unfolds (program unfolded : Program) : Prop where
  content : unfolded.content = program.content
  apart : (unfolded.modules.map Module.id).Nodup

mutual

def Program.unfold : Program → (next : Nat) → Program × Nat
  | ⟨imports, decls⟩, next =>
    let unfolded := importsUnfold imports next
    (⟨unfolded.1, decls⟩, unfolded.2)

def importsUnfold : List Import → (next : Nat) → List Import × Nat
  | [], next => ([], next)
  | entry :: imports, next =>
    let first := Import.unfold entry next
    let rest := importsUnfold imports first.2
    (first.1 :: rest.1, rest.2)

def Import.unfold : Import → (next : Nat) → Import × Nat
  | ⟨path, target⟩, next =>
    let unfolded := targetUnfold target next
    (⟨path, unfolded.1⟩, unfolded.2)

def targetUnfold : Option Module → (next : Nat) → Option Module × Nat
  | none, next => (none, next)
  | some shared, next =>
    let unfolded := Module.unfold shared next
    (some unfolded.1, unfolded.2)

def Module.unfold : Module → (next : Nat) → Module × Nat
  | ⟨_, program⟩, next =>
    let unfolded := program.unfold (next + 1)
    (⟨next, unfolded.1⟩, unfolded.2)

end

/-- The program with a private copy for every import. -/
def Program.unfolded (program : Program) : Program := (program.unfold 0).1

mutual

theorem Program.content_unfold (program : Program) (next : Nat) :
    (program.unfold next).1.content = program.content := by
  match program with
  | ⟨imports, decls⟩ => simp only [Program.unfold, Program.content, importsContent_unfold imports]

theorem importsContent_unfold (imports : List Import) (next : Nat) :
    importsContent (importsUnfold imports next).1 = importsContent imports := by
  match imports with
  | [] => rfl
  | entry :: imports =>
    simp only [importsUnfold, importsContent, Import.content_unfold entry, importsContent_unfold imports]

theorem Import.content_unfold (entry : Import) (next : Nat) :
    Import.content (Import.unfold entry next).1 = Import.content entry := by
  match entry with
  | ⟨path, target⟩ => simp only [Import.unfold, Import.content, targetContent_unfold target]

theorem targetContent_unfold (target : Option Module) (next : Nat) :
    targetContent (targetUnfold target next).1 = targetContent target := by
  match target with
  | none => rfl
  | some shared => simp only [targetUnfold, targetContent, Module.content_unfold shared]

theorem Module.content_unfold (shared : Module) (next : Nat) :
    Module.content (Module.unfold shared next).1 = Module.content shared := by
  match shared with
  | ⟨_, program⟩ => simp only [Module.unfold, Module.content, Program.content_unfold program]

end

def Numbered (modules : List Module) (next later : Nat) : Prop :=
  ∃ count, modules.map Module.id = List.range' next count ∧ later = next + count

theorem Numbered.append {first second : List Module} {next middle later : Nat}
    (firstNumbered : Numbered first next middle) (secondNumbered : Numbered second middle later) :
    Numbered (first ++ second) next later := by
  obtain ⟨count, firstIds, rfl⟩ := firstNumbered
  obtain ⟨more, secondIds, rfl⟩ := secondNumbered
  refine ⟨count + more, ?_, Nat.add_assoc next count more⟩
  rw [List.map_append, firstIds, secondIds]
  simpa only [Nat.one_mul] using @List.range'_append next count more 1

theorem Numbered.cons {modules : List Module} {next later : Nat} (program : Program)
    (numbered : Numbered modules (next + 1) later) : Numbered (⟨next, program⟩ :: modules) next later := by
  obtain ⟨count, ids, rfl⟩ := numbered
  refine ⟨count + 1, ?_, by omega⟩
  rw [List.map_cons, ids, List.range'_succ]

mutual

theorem Program.numbered_unfold (program : Program) (next : Nat) :
    Numbered (program.unfold next).1.modules next (program.unfold next).2 := by
  match program with
  | ⟨imports, decls⟩ => exact importsNumbered_unfold imports next

theorem importsNumbered_unfold (imports : List Import) (next : Nat) :
    Numbered (importsModules (importsUnfold imports next).1) next (importsUnfold imports next).2 := by
  match imports with
  | [] => exact ⟨0, rfl, rfl⟩
  | entry :: imports =>
    exact (Import.numbered_unfold entry next).append (importsNumbered_unfold imports _)

theorem Import.numbered_unfold (entry : Import) (next : Nat) :
    Numbered (Import.modules (Import.unfold entry next).1) next (Import.unfold entry next).2 := by
  match entry with
  | ⟨path, target⟩ => exact targetNumbered_unfold target next

theorem targetNumbered_unfold (target : Option Module) (next : Nat) :
    Numbered (targetModules (targetUnfold target next).1) next (targetUnfold target next).2 := by
  match target with
  | none => exact ⟨0, rfl, rfl⟩
  | some shared => exact Module.numbered_unfold shared next

theorem Module.numbered_unfold (shared : Module) (next : Nat) :
    Numbered (Module.modules (Module.unfold shared next).1) next (Module.unfold shared next).2 := by
  match shared with
  | ⟨_, program⟩ => exact (Program.numbered_unfold program (next + 1)).cons _

end

theorem Program.unfolds_unfolded (program : Program) : program.Unfolds program.unfolded := by
  refine ⟨program.content_unfold 0, ?_⟩
  obtain ⟨count, ids, _⟩ := program.numbered_unfold 0
  rw [unfolded, ids]
  exact List.nodup_range'

theorem Program.Unfolds.coherent {program unfolded : Program} (unfolds : program.Unfolds unfolded) :
    unfolded.Coherent :=
  fun _ leftMember _ rightMember same =>
    List.inj_on_of_nodup_map unfolds.apart leftMember rightMember same

section Content

theorem Environment.importAll_content (environment : Environment) (imports : List Import) :
    environment.importAll (importsContent imports) = environment.importAll imports := by
  induction imports generalizing environment with
  | nil => rfl
  | cons entry imports ih =>
    obtain ⟨path, target⟩ := entry
    match target with
    | none => rfl
    | some ⟨id, ⟨inner, decls⟩⟩ =>
      simp only [importsContent, Import.content, targetContent, Module.content, Program.content,
        importAll, Program.exported, ih]

theorem Environment.ofProgram_content (program : Program) :
    ofProgram program.content = ofProgram program := by
  obtain ⟨imports, decls⟩ := program
  simp only [ofProgram, Program.content, importAll_content]

mutual

theorem Program.typeEventsApart_content (program : Program) :
    program.content.typeEventsApart = program.typeEventsApart := by
  match program with
  | ⟨imports, decls⟩ =>
    simp only [Program.content, Program.typeEventsApart, importsTypeEventsApart_content imports]

theorem importsTypeEventsApart_content (imports : List Import) :
    importsTypeEventsApart (importsContent imports) = importsTypeEventsApart imports := by
  match imports with
  | [] => rfl
  | entry :: imports =>
    simp only [importsContent, importsTypeEventsApart, Import.typeEventsApart_content entry,
      importsTypeEventsApart_content imports]

theorem Import.typeEventsApart_content (entry : Import) :
    Import.typeEventsApart (Import.content entry) = Import.typeEventsApart entry := by
  match entry with
  | ⟨_, target⟩ =>
    simp only [Import.content, Import.typeEventsApart, targetTypeEventsApart_content target]

theorem targetTypeEventsApart_content (target : Option Module) :
    targetTypeEventsApart (targetContent target) = targetTypeEventsApart target := by
  match target with
  | none => rfl
  | some shared =>
    simp only [targetContent, targetTypeEventsApart, Module.typeEventsApart_content shared]

theorem Module.typeEventsApart_content (shared : Module) :
    Module.typeEventsApart (Module.content shared) = Module.typeEventsApart shared := by
  match shared with
  | ⟨_, program⟩ =>
    simp only [Module.content, Module.typeEventsApart, Program.typeEventsApart_content program]

end

mutual

/-- A check that walks every import by itself carries identities along without a look at them. -/
theorem Program.checkBodiesApart_content (program : Program) :
    program.content.checkBodiesApart = program.checkBodiesApart.map Program.content := by
  match program with
  | ⟨imports, decls⟩ =>
    have environment := Environment.ofProgram_content ⟨imports, decls⟩
    simp only [Program.content] at environment
    simp only [Program.content, Program.checkBodiesApart, importsCheckBodiesApart_content imports,
      environment]
    cases importsCheckBodiesApart imports with
    | error error => rfl
    | ok checkedImports =>
      cases decls.mapM (Decl.checkBody (Environment.ofProgram ⟨imports, decls⟩)) <;> rfl

theorem importsCheckBodiesApart_content (imports : List Import) :
    importsCheckBodiesApart (importsContent imports) =
      (importsCheckBodiesApart imports).map importsContent := by
  match imports with
  | [] => rfl
  | entry :: imports =>
    simp only [importsContent, importsCheckBodiesApart, Import.checkBodiesApart_content entry,
      importsCheckBodiesApart_content imports]
    cases Import.checkBodiesApart entry with
    | error error => rfl
    | ok checked => cases importsCheckBodiesApart imports <;> rfl

theorem Import.checkBodiesApart_content (entry : Import) :
    Import.checkBodiesApart (Import.content entry) = (Import.checkBodiesApart entry).map Import.content := by
  match entry with
  | ⟨path, target⟩ =>
    simp only [Import.content, Import.checkBodiesApart, targetCheckBodiesApart_content target]
    cases targetCheckBodiesApart target <;> rfl

theorem targetCheckBodiesApart_content (target : Option Module) :
    targetCheckBodiesApart (targetContent target) = (targetCheckBodiesApart target).map targetContent := by
  match target with
  | none => rfl
  | some shared =>
    simp only [targetContent, targetCheckBodiesApart, Module.checkBodiesApart_content shared]
    cases Module.checkBodiesApart shared <;> rfl

theorem Module.checkBodiesApart_content (shared : Module) :
    Module.checkBodiesApart (Module.content shared) = (Module.checkBodiesApart shared).map Module.content := by
  match shared with
  | ⟨id, program⟩ =>
    simp only [Module.content, Module.checkBodiesApart, Program.checkBodiesApart_content program]
    cases program.checkBodiesApart <;> rfl

end

theorem Program.checkApart_content (program : Program) :
    program.content.checkApart = program.checkApart.map Program.content := by
  simp only [checkApart, typeEventsApart_content, checkBodiesApart_content]
  cases DeclaredTypes.meetAll {} program.typeEventsApart <;> rfl

end Content

/-- Programs of one content have outcomes of one content, whatever their imports share. -/
theorem Program.check_of_content_eq {program other : Program} (coherent : program.Coherent)
    (otherCoherent : other.Coherent) (same : program.content = other.content) :
    program.check.map content = other.check.map content := by
  rw [check_eq_checkApart coherent, check_eq_checkApart otherCoherent, ← checkApart_content, same,
    checkApart_content]

/-- Every program can be unfolded, and a check of the unfolded program, which walks the program behind
every import, ends with the same error or with a tree of the same content. -/
theorem Program.check_unfolds {program : Program} (coherent : program.Coherent) :
    program.Unfolds program.unfolded ∧
      ∀ unfolded, program.Unfolds unfolded →
        program.check.map content = unfolded.check.map content :=
  ⟨program.unfolds_unfolded,
    fun _ unfolds => check_of_content_eq coherent unfolds.coherent unfolds.content.symm⟩

/-- Two imports that share a program behind their programs are checked like two imports that do not. -/
theorem Program.check_unfolds_diamond :
    let side := fun name => Program.mk [⟨"system", some ⟨0, .system⟩⟩] [.object { exported := true, name }]
    let diamond : Program := ⟨[⟨"left", some ⟨1, side "Left"⟩⟩, ⟨"right", some ⟨2, side "Right"⟩⟩], []⟩
    diamond.Coherent ∧ diamond.check.map content = diamond.unfolded.check.map content := by
  intro side diamond
  have modules : diamond.modules =
      [⟨1, side "Left"⟩, ⟨0, .system⟩, ⟨2, side "Right"⟩, ⟨0, .system⟩] := rfl
  have coherent : diamond.Coherent := by
    intro left leftIn right rightIn same
    simp only [modules, List.mem_cons, List.not_mem_nil, or_false] at leftIn rightIn
    rcases leftIn with rfl | rfl | rfl | rfl <;> rcases rightIn with rfl | rfl | rfl | rfl <;>
      first | rfl | cases same
  obtain ⟨unfolds, unseen⟩ := Program.check_unfolds coherent
  exact ⟨coherent, unseen diamond.unfolded unfolds⟩

end TypedTree
