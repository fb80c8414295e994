import Mathlib.Data.List.Lex
import Mathlib.Logic.Relation
import TypedTree.Proofs.Import.Binding
/-! Programs in a table that import each other, and what a walk along their imports finds wrong. A walk
from a path finds nothing wrong exactly if all paths in reach are in the table and none of them leads
back to itself. -/

namespace TypedTree

inductive TableFault where
  | absent (path : String)
  | importing (error : Error)
  | exhausted

namespace Table

open ImportCache (systemPath)

/-- A table as sources, which are the same at every place. -/
def sources (modules : Table String Program) : Sources TableFault Unit where
  read _ path :=
    match modules.find? path with
    | none => .error (.absent path)
    | some program => .ok (program, ())
  ofError := .importing
  within _ fault := fault
  exhausted := .exhausted

/-- What a walk may find wrong. It has entered the paths of the chain and left none of them, and is about
to enter a path; the position numbers the imports it takes from there. It does not enter `system`. -/
inductive FaultAt (modules : Table String Program) : (chain : List String) → (path : String) →
    (position : List Nat) → TableFault → Prop where
  | cyclic {chain path} : path ≠ systemPath → path ∈ chain →
      FaultAt modules chain path [] (.importing (.cyclicImport path))
  | absent {chain path} : path ≠ systemPath → path ∉ chain → modules.find? path = none →
      FaultAt modules chain path [] (.absent path)
  | inside {chain path program number other position fault} : path ≠ systemPath → path ∉ chain →
      modules.find? path = some program → (program.imports.map Import.path)[number]? = some other →
      FaultAt modules (path :: chain) other position fault → FaultAt modules chain path (number :: position) fault

inductive FaultAmong (modules : Table String Program) (chain paths : List String) :
    (position : List Nat) → TableFault → Prop where
  | behind {number path position fault} : paths[number]? = some path →
      modules.FaultAt chain path position fault → FaultAmong modules chain paths (number :: position) fault

/-- The first of several faults in the order of a walk, which goes into each import before it takes the
next one. -/
def First (faults : List Nat → TableFault → Prop) (fault : TableFault) : Prop :=
  ∃ position, faults position fault ∧
    ∀ earlier, List.Lex (· < ·) earlier position → ∀ other, ¬ faults earlier other

/-- A result is what the faults on the way to it call for: success if there are none, otherwise the first
of them. -/
def Reports {α : Type} (faults : List Nat → TableFault → Prop) : Except TableFault α → Prop
  | .ok _ => ∀ position fault, ¬ faults position fault
  | .error fault => First faults fault

/-- A path of the table and one that its program imports. Nothing is seen behind `system`. -/
def Imports (modules : Table String Program) (path other : String) : Prop :=
  path ≠ systemPath ∧ ∃ program, modules.find? path = some program ∧ other ∈ program.imports.map Import.path

/-- Every path in reach is in the table, and none leads back to itself. -/
def Closed (modules : Table String Program) (path : String) : Prop :=
  ∀ other, Relation.ReflTransGen modules.Imports path other → other ≠ systemPath →
    modules.find? other ≠ none ∧ ¬ Relation.TransGen modules.Imports other other

variable {modules : Table String Program} {chain paths : List String} {path : String} {program : Program}

theorem read_eq_ok_iff {place inner : Unit} :
    modules.sources.read place path = .ok (program, inner) ↔ modules.find? path = some program := by
  simp only [sources]
  split
  next absent => simp only [reduceCtorEq, absent]
  next found => simp only [Except.ok.injEq, Prod.mk.injEq, and_true, found, Option.some.injEq]

theorem read_eq_error_iff {place : Unit} {fault : TableFault} :
    modules.sources.read place path = .error fault ↔ modules.find? path = none ∧ .absent path = fault := by
  simp only [sources]
  split
  next absent => simp only [Except.error.injEq, absent, true_and]
  next found => simp only [reduceCtorEq, found, false_and]

theorem FaultAt.unique {position : List Nat} {fault other : TableFault}
    (here : modules.FaultAt chain path position fault)
    (there : modules.FaultAt chain path position other) : fault = other := by
  induction here with
  | cyclic _ member =>
    cases there with
    | cyclic => rfl
    | absent _ free => exact absurd member free
  | absent _ free =>
    cases there with
    | cyclic _ member => exact absurd member free
    | absent => rfl
  | inside _ _ found taken _ below =>
    cases there with
    | inside _ _ again also deeper =>
      cases found.symm.trans again
      cases taken.symm.trans also
      exact below deeper

theorem Reports.unique {α : Type} {result : Except TableFault α} {fault : TableFault}
    (reports : Reports (modules.FaultAt chain path) result)
    (first : First (modules.FaultAt chain path) fault) : result = .error fault := by
  obtain ⟨position, here, least⟩ := first
  match result with
  | .ok value => exact absurd here (reports position fault)
  | .error other =>
    obtain ⟨place, there, before⟩ := reports
    have same : position = place := by
      apply Std.Trichotomous.trichotomous (r := List.Lex (· < ·))
      · exact fun earlier => before position earlier fault here
      · exact fun earlier => least place earlier other there
    rw [same] at here
    rw [here.unique there]

theorem reports_map_iff {α β : Type} {faults : List Nat → TableFault → Prop} {change : α → β}
    {result : Except TableFault α} : Reports faults (result.map change) ↔ Reports faults result := by
  cases result <;> exact .rfl

theorem faultAmong_nil {position : List Nat} {fault : TableFault} :
    ¬ modules.FaultAmong chain [] position fault := by
  intro found
  cases found with
  | behind taken => cases taken

theorem first_head {fault : TableFault} (first : First (modules.FaultAt chain path) fault) :
    First (modules.FaultAmong chain (path :: paths)) fault := by
  obtain ⟨position, here, least⟩ := first
  refine ⟨0 :: position, .behind rfl here, ?_⟩
  intro earlier ordered other found
  cases found with
  | behind taken there =>
    cases ordered with
    | rel less => exact Nat.not_lt_zero _ less
    | cons ordered =>
      cases taken
      exact least _ ordered other there

theorem reports_tail {α : Type} {result : Except TableFault α}
    (clean : ∀ position fault, ¬ modules.FaultAt chain path position fault)
    (reports : Reports (modules.FaultAmong chain paths) result) :
    Reports (modules.FaultAmong chain (path :: paths)) result := by
  have later : ∀ position fault, modules.FaultAmong chain (path :: paths) position fault →
      ∃ number rest, position = (number + 1) :: rest ∧ modules.FaultAmong chain paths (number :: rest) fault := by
    intro position fault found
    cases found with
    | @behind number _ rest _ taken there =>
      cases number with
      | zero =>
        cases taken
        exact absurd there (clean rest fault)
      | succ number => exact ⟨number, rest, rfl, .behind taken there⟩
  match result with
  | .ok value =>
    intro position fault found
    obtain ⟨number, rest, -, there⟩ := later position fault found
    exact reports _ _ there
  | .error fault =>
    obtain ⟨position, here, least⟩ := reports
    cases here with
    | @behind number _ rest _ taken here =>
      refine ⟨(number + 1) :: rest, .behind taken here, ?_⟩
      intro earlier ordered other found
      obtain ⟨next, place, rfl, there⟩ := later earlier other found
      cases ordered with
      | rel less => exact least (next :: place) (.rel (Nat.lt_of_succ_lt_succ less)) other there
      | cons ordered => exact least (number :: place) (.cons ordered) other there

theorem reports_alone {α : Type} {result : Except TableFault α}
    (reports : Reports (modules.FaultAmong chain [path]) result) :
    Reports (modules.FaultAt chain path) result := by
  match result with
  | .ok value => exact fun position fault wrong => reports (0 :: position) fault (.behind rfl wrong)
  | .error fault =>
    obtain ⟨position, here, least⟩ := reports
    cases here with
    | @behind number _ rest _ taken here =>
      cases number with
      | succ number => cases taken
      | zero =>
        cases taken
        refine ⟨rest, here, ?_⟩
        intro earlier ordered other there
        exact least (0 :: earlier) (.cons ordered) other (.behind rfl there)

theorem faultAt_iff_faultAmong (other : path ≠ systemPath) (free : path ∉ chain)
    (found : modules.find? path = some program) {position : List Nat} {fault : TableFault} :
    modules.FaultAt chain path position fault ↔
      modules.FaultAmong (path :: chain) (program.imports.map Import.path) position fault := by
  constructor
  · intro wrong
    cases wrong with
    | cyclic _ member => exact absurd member free
    | absent _ _ absent => cases absent.symm.trans found
    | inside _ _ again taken deeper =>
      cases found.symm.trans again
      exact .behind taken deeper
  · intro wrong
    cases wrong with
    | behind taken deeper => exact .inside other free found taken deeper

theorem reports_inside {α : Type} {result : Except TableFault α} (other : path ≠ systemPath)
    (free : path ∉ chain) (found : modules.find? path = some program)
    (reports : Reports (modules.FaultAmong (path :: chain) (program.imports.map Import.path)) result) :
    Reports (modules.FaultAt chain path) result := by
  have same : modules.FaultAt chain path =
      modules.FaultAmong (path :: chain) (program.imports.map Import.path) := by
    funext position fault
    exact propext (faultAt_iff_faultAmong other free found)
  rw [same]
  exact reports

theorem first_start {fault : TableFault} (wrong : modules.FaultAt chain path [] fault) :
    First (modules.FaultAt chain path) fault :=
  ⟨[], wrong, nofun⟩

/-- A walk from a path, whatever it has entered before, finds something wrong. -/
def Spoils (modules : Table String Program) (chain : List String) (path : String) : Prop :=
  ∃ position fault, modules.FaultAt chain path position fault

theorem Spoils.step {other : String} (imports : modules.Imports path other)
    (spoils : modules.Spoils (path :: chain) other) : modules.Spoils chain path := by
  obtain ⟨real, program, found, member⟩ := imports
  by_cases busy : path ∈ chain
  · exact ⟨[], _, .cyclic real busy⟩
  · obtain ⟨number, taken⟩ := List.mem_iff_getElem?.mp member
    obtain ⟨position, fault, wrong⟩ := spoils
    exact ⟨number :: position, fault, .inside real busy found taken wrong⟩

/-- What is wrong at a path in reach is found, if it does not depend on how the path was reached. -/
theorem Spoils.reach {other : String} (reach : Relation.ReflTransGen modules.Imports path other)
    (entered : List String)
    (spoils : ∀ chain, entered ⊆ chain → modules.Spoils chain other) :
    ∀ chain, entered ⊆ chain → modules.Spoils chain path := by
  induction reach using Relation.ReflTransGen.head_induction_on with
  | refl => exact spoils
  | head imports _ behind =>
    intro chain within
    exact .step imports (behind _ (List.subset_cons_of_subset _ within))

theorem spoils_of_absent {other : String} (real : other ≠ systemPath) (absent : modules.find? other = none)
    (chain : List String) : modules.Spoils chain other := by
  by_cases busy : other ∈ chain
  · exact ⟨[], _, .cyclic real busy⟩
  · exact ⟨[], _, .absent real busy absent⟩

theorem spoils_of_cycle {other : String} (real : other ≠ systemPath)
    (cycle : Relation.TransGen modules.Imports other other) (chain : List String) :
    modules.Spoils chain other := by
  obtain ⟨next, imports, back⟩ := Relation.TransGen.head'_iff.mp cycle
  refine .step imports (Spoils.reach back [other] ?_ _ (by simp))
  intro chain entered
  exact ⟨[], _, .cyclic real (entered (List.mem_singleton_self other))⟩

/-- Every path that a walk has entered leads to the one it is about to enter. If nothing in reach leads back
to itself, that is none of them. -/
theorem Closed.faultless {start : String} (closed : modules.Closed start) {position : List Nat}
    {fault : TableFault} (wrong : modules.FaultAt chain path position fault)
    (reach : Relation.ReflTransGen modules.Imports start path)
    (entered : ∀ other ∈ chain, Relation.TransGen modules.Imports other path) : False := by
  induction wrong with
  | cyclic real busy => exact (closed _ reach real).right (entered _ busy)
  | absent real _ absent => exact (closed _ reach real).left absent
  | @inside chain path program number other _ _ real _ found taken _ deeper =>
    have imports : modules.Imports path other := ⟨real, program, found, List.mem_of_getElem? taken⟩
    apply deeper (reach.tail imports)
    rw [List.forall_mem_cons]
    exact ⟨.single imports, fun before member => (entered before member).tail imports⟩

theorem closed_iff_faultless :
    modules.Closed path ↔ ∀ position fault, ¬ modules.FaultAt [] path position fault := by
  constructor
  · intro closed position fault wrong
    exact closed.faultless wrong .refl nofun
  · intro faultless other reach real
    have sound : ¬ ∀ chain, modules.Spoils chain other := by
      intro spoils
      obtain ⟨position, fault, wrong⟩ := Spoils.reach reach [] (fun chain _ => spoils chain) [] nofun
      exact faultless position fault wrong
    exact ⟨fun absent => sound (spoils_of_absent real absent),
      fun cycle => sound (spoils_of_cycle real cycle)⟩

end Table

end TypedTree
