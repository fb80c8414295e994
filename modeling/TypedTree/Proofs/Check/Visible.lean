import TypedTree.Proofs.Check.Resolution
/-! What a type name stands for. In every program it stands for the last object of the name that is visible
there, so that one name can stand for different objects on the two sides of an import. -/

namespace TypedTree

def Decl.object? : Decl → Option ObjectDecl
  | .function _ => none
  | .object declaration => some declaration

def lastObject? (name : String) (decls : List Decl) : Option ObjectDecl :=
  (decls.filterMap Decl.object?).reverse.find? fun declaration => declaration.name = name

/-- The last object of a name that is visible in a program. -/
def Program.lastObject? (program : Program) (name : String) : Option ObjectDecl :=
  TypedTree.lastObject? name program.visible

def ObjectDecl.lastType? (declaration : ObjectDecl) (name : String) : Option Ty :=
  (declaration.properties.reverse.find? fun property => property.name = name).map TypedName.type

/-- Two object types have the same properties with the same types. -/
def ObjectType.Agrees (left right : ObjectType) : Prop :=
  ∀ name, left.property? name = right.property? name

theorem lastObject?_append (name : String) (first second : List Decl) :
    lastObject? name (first ++ second) = (lastObject? name second).or (lastObject? name first) := by
  simp only [lastObject?, List.filterMap_append, List.reverse_append, List.find?_append]

theorem lastObject?_eq_none_iff (name : String) (decls : List Decl) :
    lastObject? name decls = none ↔ ∀ declaration, .object declaration ∈ decls → declaration.name ≠ name := by
  simp only [lastObject?, List.find?_eq_none, List.mem_reverse, List.mem_filterMap, decide_eq_true_eq]
  constructor
  · intro absent declaration member
    exact absent declaration ⟨_, member, rfl⟩
  · rintro absent declaration ⟨decl, member, same⟩
    cases decl with
    | function other => cases same
    | object other =>
      cases same
      exact absent declaration member

section Tables

variable {α : Type}

theorem Table.find?_insertAll (table : Table String α) (entries : List (String × α)) (name : String) :
    (table.insertAll entries).find? name =
      ((entries.reverse.find? fun entry => entry.1 = name).map Prod.snd).or (table.find? name) := by
  induction entries generalizing table with
  | nil => rfl
  | cons entry entries ih =>
    change ((table.insert entry.1 entry.2).insertAll entries).find? name = _
    rw [ih, Table.find?_insert, List.reverse_cons, List.find?_append]
    cases entries.reverse.find? fun entry => entry.1 = name with
    | some found => rfl
    | none =>
      by_cases same : name = entry.1
      · simp [same]
      · simp [same, Ne.symm same]

end Tables

theorem ObjectDecl.property?_objectType (declaration : ObjectDecl) (name : String) :
    declaration.objectType.property? name = declaration.lastType? name := by
  rw [ObjectType.property?, objectType, Table.find?_insertAll, Table.find?_empty, Option.or_none,
    ← List.map_reverse, List.find?_map, lastType?, Option.map_map]
  rfl

namespace Environment

theorem objects_declareAll (environment : Environment) (decls : List Decl) :
    (environment.declareAll decls).objects = environment.objects.insertAll
      ((decls.filterMap Decl.object?).map fun declaration => (declaration.name, declaration.objectType)) := by
  induction decls generalizing environment with
  | nil => rfl
  | cons decl decls ih =>
    change ((environment.declare decl).declareAll decls).objects = _
    rw [ih]
    cases decl <;> rfl

theorem object?_of_ofProgram {program : Program} {environment : Environment}
    (built : ofProgram program = .ok environment) (name : String) :
    environment.object? name = (program.lastObject? name).map ObjectDecl.objectType := by
  obtain ⟨_, rfl⟩ := (ofProgram_eq_ok_iff program environment).mp built
  rw [object?, objects_declareAll, Table.find?_insertAll, ← List.map_reverse, List.find?_map, Option.map_map]
  exact Option.or_none

end Environment

section Imports

variable {program : Program} {entry : Import} {shared : Module} {name : String} {declaration : ObjectDecl}

theorem Program.visible_split {before after : List Import}
    (split : program.imports = before ++ entry :: after) (target : entry.target = some shared) :
    program.visible = before.flatMap Import.exported ++
      (shared.program.exported ++ (after.flatMap Import.exported ++ program.decls)) := by
  have exported : entry.exported = shared.program.exported := by rw [Import.exported, target]; rfl
  simp only [visible, split, List.flatMap_append, List.flatMap_cons, exported, List.append_assoc]

/-- An object that is exported keeps its name in an importing program unless a later import or the
program itself declares the name. -/
theorem Program.lastObject?_of_import {before after : List Import}
    (split : program.imports = before ++ entry :: after) (target : entry.target = some shared)
    (exported : TypedTree.lastObject? name shared.program.exported = some declaration)
    (kept : TypedTree.lastObject? name (after.flatMap Import.exported ++ program.decls) = none) :
    program.lastObject? name = some declaration := by
  rw [lastObject?, visible_split split target, lastObject?_append, lastObject?_append, kept, exported]
  rfl

end Imports

/-- Where a program and a program it imports both give a name to an object, they give it to objects with the
same properties exactly if the last declarations of the name on both sides declare the same properties. They
give it to one object if the imported program exports its own and neither a later import nor the importing
program declares the name. Where the objects agree, a property access that the importing program accepts is
one that the object of the imported program has. -/
theorem Environment.object_across_import {program : Program} {before after : List Import} {entry : Import}
    {shared : Module} (split : program.imports = before ++ entry :: after)
    (target : entry.target = some shared) {environment inside : Environment}
    (built : ofProgram program = .ok environment) (builtInside : ofProgram shared.program = .ok inside)
    {name : String} {ours theirs : ObjectType} (found : environment.object? name = some ours)
    (foundInside : inside.object? name = some theirs) :
    (∃ declaration other, program.lastObject? name = some declaration ∧
      shared.program.lastObject? name = some other ∧
      (ours.Agrees theirs ↔ ∀ property, declaration.lastType? property = other.lastType? property)) ∧
    (lastObject? name shared.program.exported = shared.program.lastObject? name →
      lastObject? name (after.flatMap Import.exported ++ program.decls) = none → ours = theirs) ∧
    (ours.Agrees theirs → ∀ scopes base baseType property written type,
      base.infer ⟨environment, scopes⟩ = .ok baseType → baseType.name = name →
        (Expr.property base property written).infer ⟨environment, scopes⟩ = .ok type →
          theirs.property? property = some type) := by
  have own := found
  rw [object?_of_ofProgram built, Option.map_eq_some_iff] at own
  obtain ⟨declaration, last, rfl⟩ := own
  have behind := foundInside
  rw [object?_of_ofProgram builtInside, Option.map_eq_some_iff] at behind
  obtain ⟨other, lastInside, rfl⟩ := behind
  refine ⟨⟨declaration, other, last, lastInside, ?_⟩, ?_, ?_⟩
  · simp only [ObjectType.Agrees, ObjectDecl.property?_objectType]
  · intro exported kept
    rw [lastInside] at exported
    cases last.symm.trans (Program.lastObject?_of_import split target exported kept)
    rfl
  · intro agrees scopes base baseType property written type inferred same accepted
    obtain ⟨_, accessed, inferredAgain, _, object, declared, owned⟩ :=
      (Expr.infer_property_eq_ok_iff _ base property written type).mp accepted
    cases inferred.symm.trans inferredAgain
    rw [same] at declared
    cases found.symm.trans declared
    rw [← agrees property]
    exact owned

/-- An object of an import is still one object where an earlier import has another one of its name. -/
theorem Environment.object_across_import_kept :
    let early := Program.mk [] [.object { exported := true, name := "Shape" }]
    let shape : ObjectDecl := { exported := true, name := "Shape", properties := [⟨"size", .int32⟩] }
    let shapes := Program.mk [] [.object shape]
    let program : Program := ⟨[⟨"early", some ⟨0, early⟩⟩, ⟨"shapes", some ⟨1, shapes⟩⟩], []⟩
    ∃ environment inside ours theirs, ofProgram program = .ok environment ∧
      ofProgram shapes = .ok inside ∧ environment.object? "Shape" = some ours ∧
      inside.object? "Shape" = some theirs ∧ ours = theirs := by
  intro early shape shapes program
  have split : program.imports = [⟨"early", some ⟨0, early⟩⟩] ++ ⟨"shapes", some ⟨1, shapes⟩⟩ :: [] := rfl
  refine ⟨_, _, _, _, rfl, rfl, rfl, rfl, ?_⟩
  exact (object_across_import split rfl rfl rfl (rfl : object? _ "Shape" = _) rfl).2.1 rfl rfl

/-- A program that declares an object of a name itself gives the name to its own object, though a function
that it imports speaks of another one. -/
theorem Program.check_object_redeclared :
    let theirs : ObjectDecl := { exported := true, name := "Shape", properties := [⟨"size", .int32⟩] }
    let ours : ObjectDecl := { name := "Shape", properties := [⟨"label", .string⟩] }
    let make := FunctionDecl.mk true "make" (.scalar "Shape") [] []
    let label := Expr.property (.call (.var "make" none) [] none) "label" none
    let main := FunctionDecl.mk false "main" .void [] [.declare "text" .string (some label)]
    let shapes := Program.mk [] [.object theirs, .function make]
    let program : Program := ⟨[⟨"shapes", some ⟨0, shapes⟩⟩], [.object ours, .function main]⟩
    program.Accepted ∧ ∃ environment inside, Environment.ofProgram program = .ok environment ∧
      Environment.ofProgram shapes = .ok inside ∧ environment.function? "make" = some make.type ∧
      environment.object? "Shape" = some ours.objectType ∧
      inside.object? "Shape" = some theirs.objectType ∧ ¬ ours.objectType.Agrees theirs.objectType := by
  intro theirs ours make label main shapes program
  refine ⟨⟨_, rfl⟩, _, _, rfl, rfl, rfl, rfl, rfl, ?_⟩
  intro agrees
  exact absurd (agrees "size") (by decide)
end TypedTree
