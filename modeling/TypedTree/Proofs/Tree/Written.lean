import TypedTree.Proofs.Json.Reals
import TypedTree.Proofs.Tree.RoundTrip
/-! The text of a written program, read again. It stands for the program exactly if no real literal is
infinite or undefined and the tree stays above the limit of the reader; otherwise it stands for none. -/

namespace TypedTree

open Json (Fault Draft maxDepth)

section Numbers

open Json (NumbersReadBack itemsNumbersReadBack fieldsNumbersReadBack)

theorem fieldsNumbersReadBack_append {first second : List (String × Json)}
    (left : fieldsNumbersReadBack first) (right : fieldsNumbersReadBack second) :
    fieldsNumbersReadBack (first ++ second) := by
  induction first with
  | nil => exact right
  | cons field first ih => exact ⟨left.left, ih left.right⟩

theorem itemsNumbersReadBack_map {α : Type} {encode : α → Json}
    (each : ∀ value, (encode value).NumbersReadBack) (values : List α) :
    itemsNumbersReadBack (values.map encode) := by
  induction values with
  | nil => trivial
  | cons value values ih => exact ⟨each value, ih⟩

theorem numbersReadBack_node {kind : String} {fields others : List (String × Json)}
    (first : fieldsNumbersReadBack fields) (second : fieldsNumbersReadBack others) :
    (Json.node kind (fields ++ others)).NumbersReadBack :=
  ⟨trivial, fieldsNumbersReadBack_append first second⟩

mutual

theorem Ty.numbersReadBack_encode (type : Ty) : type.encode.NumbersReadBack := by
  match type with
  | ⟨name, isArray, none⟩ => exact ⟨trivial, trivial, trivial⟩
  | ⟨name, isArray, some params⟩ => exact ⟨trivial, trivial, numbersReadBack_encodeList params, trivial⟩

theorem Ty.numbersReadBack_encodeList (types : List Ty) : itemsNumbersReadBack (Ty.encodeList types) := by
  match types with
  | [] => trivial
  | type :: types => exact ⟨type.numbersReadBack_encode, numbersReadBack_encodeList types⟩

end

theorem numbersReadBack_typeField (type : Option Ty) : fieldsNumbersReadBack (typeField type) := by
  cases type with
  | none => trivial
  | some type => exact ⟨type.numbersReadBack_encode, trivial⟩

theorem TypedName.numbersReadBack_encode (entry : TypedName) : entry.encode.NumbersReadBack :=
  ⟨trivial, entry.type.numbersReadBack_encode, trivial⟩

theorem fitsInt64_toInt (value : Int64) : fitsInt64 value.toInt = true := by
  simp only [fitsInt64, Int64.minValue_le_toInt, Int64.toInt_le, decide_true, Bool.and_self]

theorem numbersReadBack_encodeReal (value : Float) : (encodeReal value).NumbersReadBack := by
  rw [encodeReal]
  split
  next finite => exact Json.realReadsBack_of_isFinite finite
  next => trivial

mutual

theorem Expr.numbersReadBack_encode (expr : Expr) : expr.encode.NumbersReadBack := by
  match expr with
  | .call callee args type =>
    exact numbersReadBack_node ⟨callee.numbersReadBack_encode, numbersReadBack_encodeArgs args, trivial⟩
      (numbersReadBack_typeField type)
  | .arithmetic operator left right type =>
    exact numbersReadBack_node ⟨trivial, left.numbersReadBack_encode, right.numbersReadBack_encode, trivial⟩
      (numbersReadBack_typeField type)
  | .index base position type =>
    exact numbersReadBack_node ⟨base.numbersReadBack_encode, position.numbersReadBack_encode, trivial⟩
      (numbersReadBack_typeField type)
  | .property base name type =>
    exact numbersReadBack_node ⟨base.numbersReadBack_encode, trivial, trivial⟩ (numbersReadBack_typeField type)
  | .var name type | .string value type | .bool value type =>
    exact numbersReadBack_node ⟨trivial, trivial⟩ (numbersReadBack_typeField type)
  | .int value type =>
    exact numbersReadBack_node ⟨fitsInt64_toInt value, trivial⟩ (numbersReadBack_typeField type)
  | .real value type =>
    exact numbersReadBack_node ⟨numbersReadBack_encodeReal value, trivial⟩ (numbersReadBack_typeField type)

theorem numbersReadBack_encodeArgs (args : List Expr) : itemsNumbersReadBack (encodeArgs args) := by
  match args with
  | [] => trivial
  | arg :: args => exact ⟨arg.numbersReadBack_encode, numbersReadBack_encodeArgs args⟩

end

mutual

theorem Stmt.numbersReadBack_encode (statement : Stmt) : statement.encode.NumbersReadBack := by
  match statement with
  | .declare name type none => exact ⟨trivial, trivial, type.numbersReadBack_encode, trivial⟩
  | .declare name type (some value) =>
    exact ⟨trivial, trivial, type.numbersReadBack_encode, value.numbersReadBack_encode, trivial⟩
  | .assign target value =>
    exact ⟨trivial, target.numbersReadBack_encode, value.numbersReadBack_encode, trivial⟩
  | .branch condition thenBranch none =>
    exact ⟨trivial, condition.numbersReadBack_encode, thenBranch.numbersReadBack_encode, trivial⟩
  | .branch condition thenBranch (some elseBranch) =>
    exact ⟨trivial, condition.numbersReadBack_encode, thenBranch.numbersReadBack_encode,
      elseBranch.numbersReadBack_encode, trivial⟩
  | .call callee args type => exact (Expr.call callee args type).numbersReadBack_encode
  | .block lines => exact ⟨trivial, numbersReadBack_encodeLines lines, trivial⟩

theorem numbersReadBack_encodeLines (lines : List Stmt) : itemsNumbersReadBack (encodeLines lines) := by
  match lines with
  | [] => trivial
  | line :: lines => exact ⟨line.numbersReadBack_encode, numbersReadBack_encodeLines lines⟩

end

theorem Decl.numbersReadBack_encode (declaration : Decl) : declaration.encode.NumbersReadBack := by
  match declaration with
  | .function declaration =>
    have params := itemsNumbersReadBack_map TypedName.numbersReadBack_encode declaration.params
    have body := numbersReadBack_encodeLines declaration.body
    have returns := declaration.returns.numbersReadBack_encode
    exact ⟨trivial, trivial, trivial, returns, params, ⟨body, trivial⟩, trivial⟩
  | .object declaration =>
    have properties := itemsNumbersReadBack_map TypedName.numbersReadBack_encode declaration.properties
    exact ⟨trivial, trivial, trivial, properties, trivial⟩

theorem Import.numbersReadBack_encode (entry : Import) : entry.encode.NumbersReadBack := ⟨trivial, trivial⟩

theorem Program.numbersReadBack_encode (program : Program) : program.encode.NumbersReadBack :=
  ⟨itemsNumbersReadBack_map Import.numbersReadBack_encode program.imports,
    itemsNumbersReadBack_map Decl.numbersReadBack_encode program.decls, trivial⟩

end Numbers

section Nesting

open Json (draftAt draftItemsAt draftFieldsAt nestingItems nestingFields)

namespace Json

mutual

/-- A reader of a whole value gets through it exactly if the value stays above the limit. -/
theorem whole_draftAt {depth : Nat} (json : Json) (inside : depth ≤ maxDepth) :
    (json.draftAt depth).reading.whole = none ↔ depth + json.nesting ≤ maxDepth := by
  match json with
  | null | bool _ | int _ | real _ | text _ => exact iff_of_true rfl inside
  | list items =>
    rw [draftAt, nesting, enclosed]
    by_cases room : depth < maxDepth
    · rw [if_pos room]
      exact (whole_draftItemsAt items room).trans (by omega)
    · rw [if_neg room]
      exact iff_of_false (fun read => nomatch read) (by omega)
  | object fields =>
    rw [draftAt, nesting, enclosed]
    by_cases room : depth < maxDepth
    · rw [if_pos room]
      exact (whole_draftFieldsAt fields room).trans (by omega)
    · rw [if_neg room]
      exact iff_of_false (fun read => nomatch read) (by omega)

theorem whole_draftItemsAt {depth : Nat} (items : List Json) (inside : depth ≤ maxDepth) :
    Reading.itemsFault Reading.whole none (Draft.readings (draftItemsAt depth items)) = none ↔
      depth + nestingItems items ≤ maxDepth := by
  match items with
  | [] => exact iff_of_true rfl inside
  | item :: items =>
    rw [draftItemsAt, Draft.readings, Reading.itemsFault, Option.or_eq_none_iff, whole_draftAt item inside,
      whole_draftItemsAt items inside, nestingItems]
    omega

theorem whole_draftFieldsAt {depth : Nat} (fields : List (String × Json)) (inside : depth ≤ maxDepth) :
    Reading.itemsFault Reading.whole none
        ((Draft.fieldReadings (draftFieldsAt depth fields)).map Prod.snd) = none ↔
      depth + nestingFields fields ≤ maxDepth := by
  match fields with
  | [] => exact iff_of_true rfl inside
  | (name, value) :: fields =>
    rw [draftFieldsAt, Draft.fieldReadings, List.map_cons, Reading.itemsFault, Option.or_eq_none_iff,
      whole_draftAt value inside, whole_draftFieldsAt fields inside, nestingFields]
    omega

end

def fieldsAt (depth : Nat) (entries : List (String × Json)) : Fields where
  entries := Draft.fieldReadings (draftFieldsAt (depth + 1) entries)
  ending := none

theorem reading_object_at {depth : Nat} (room : depth < maxDepth) (entries : List (String × Json)) :
    ((object entries).draftAt depth).reading = .ofFields (fieldsAt depth entries) := by
  rw [draftAt, enclosed, if_pos room]
  rfl

end Json

theorem Fields.whole_of_scanKind {kinds : List String} {inner : Bool} {found result : Option String}
    {entries : List (String × Reading)} (free : ∀ entry ∈ entries, entry.1 ≠ "kind")
    (scanned : Fields.scanKind kinds inner found entries = .ok result) :
    Reading.itemsFault Reading.whole none (entries.map Prod.snd) = none := by
  induction entries with
  | nil => rfl
  | cons entry entries ih =>
    obtain ⟨name, reading⟩ := entry
    obtain ⟨other, free⟩ := List.forall_mem_cons.mp free
    simp only [Fields.scanKind, if_neg other] at scanned
    cases whole : reading.whole with
    | some fault =>
      rw [whole] at scanned
      cases scanned
    | none =>
      rw [whole] at scanned
      rw [List.map_cons, Reading.itemsFault, whole]
      exact ih free scanned

theorem names_fieldReadings (depth : Nat) (entries : List (String × Json)) :
    (Draft.fieldReadings (draftFieldsAt depth entries)).map Prod.fst = entries.map Prod.fst := by
  induction entries with
  | nil => rfl
  | cons entry entries ih =>
    rw [draftFieldsAt, Draft.fieldReadings, List.map_cons, List.map_cons, ih]

theorem nesting_of_kind {depth : Nat} {kind found : String} {kinds : List String} {inner : Bool}
    {entries : List (String × Json)} (room : depth < maxDepth) (free : "kind" ∉ entries.map Prod.fst)
    (read : (Json.fieldsAt depth (("kind", .text kind) :: entries)).kind kinds inner = .ok found) :
    depth + (Json.node kind entries).nesting ≤ maxDepth := by
  obtain ⟨_, scanned, _⟩ := bind_eq_ok_iff.mp read
  obtain ⟨_, _, scanned⟩ := bind_eq_ok_iff.mp scanned
  have unnamed : ∀ entry ∈ Draft.fieldReadings (draftFieldsAt (depth + 1) entries), entry.1 ≠ "kind" := by
    intro entry member same
    apply free
    rw [← names_fieldReadings (depth + 1), ← same]
    exact List.mem_map_of_mem member
  have inside := (Json.whole_draftFieldsAt entries room).mp (Fields.whole_of_scanKind unnamed scanned)
  rw [Json.node, Json.nesting, nestingFields, Json.nesting]
  omega

theorem Decl.nesting_of_reading {depth : Nat} {declaration result : Decl} (room : depth < maxDepth)
    (read : (declaration.encode.draftAt depth).reading.decl = .ok result) :
    depth + declaration.encode.nesting ≤ maxDepth := by
  cases declaration with
  | function declaration =>
    rw [Decl.encode, Json.node, Json.reading_object_at room] at read
    obtain ⟨_, kind, _⟩ := bind_eq_ok_iff.mp read
    exact nesting_of_kind room (by simp [FunctionDecl.encodeFields]) kind
  | object declaration =>
    rw [Decl.encode, Json.node, Json.reading_object_at room] at read
    obtain ⟨_, kind, _⟩ := bind_eq_ok_iff.mp read
    exact nesting_of_kind room (by simp) kind

theorem Reading.listOf_cons_eq_ok {α : Type} {role : Reading → Except Fault α} {item : Reading}
    {items : List Reading} {values : List α} (read : Reading.listOf role none (item :: items) = .ok values) :
    (∃ value, role item = .ok value) ∧ ∃ values, Reading.listOf role none items = .ok values := by
  obtain ⟨_, each, _⟩ := bind_eq_ok_iff.mp read
  obtain ⟨value, values, first, others, _⟩ := mapM_cons_eq_ok_iff.mp each
  exact ⟨⟨value, first⟩, ⟨values, bind_eq_ok_iff.mpr ⟨values, others, rfl⟩⟩⟩

theorem Reading.listOf_eq_ok {α : Type} {role : Reading → Except Fault α} {items : List Reading}
    {values : List α} (read : Reading.listOf role none items = .ok values) :
    ∀ item ∈ items, ∃ value, role item = .ok value := by
  induction items generalizing values with
  | nil => exact fun _ member => (nomatch member)
  | cons item items ih =>
    obtain ⟨first, _, others⟩ := Reading.listOf_cons_eq_ok read
    exact List.forall_mem_cons.mpr ⟨first, ih others⟩

theorem readings_draftItemsAt (depth : Nat) (items : List Json) :
    Draft.readings (draftItemsAt depth items) = items.map fun item => (item.draftAt depth).reading := by
  induction items with
  | nil => rfl
  | cons item items ih => rw [draftItemsAt, Draft.readings, List.map_cons, ih]

theorem nestingItems_le {limit : Nat} {items : List Json} (each : ∀ item ∈ items, item.nesting ≤ limit) :
    nestingItems items ≤ limit := by
  induction items with
  | nil => exact Nat.zero_le limit
  | cons item items ih =>
    obtain ⟨first, each⟩ := List.forall_mem_cons.mp each
    rw [nestingItems]
    exact max_le first (ih each)

theorem Program.nesting_of_reading {program result : Program}
    (read : (program.encode.draftAt 0).reading.program = .ok result) : program.encode.nesting ≤ maxDepth := by
  rw [Program.encode, Json.reading_object_at (by decide)] at read
  obtain ⟨_, _, read⟩ := bind_eq_ok_iff.mp read
  obtain ⟨_, _, read⟩ := bind_eq_ok_iff.mp read
  obtain ⟨decls, nodes, _⟩ := bind_eq_ok_iff.mp read
  have list : ((Json.list (program.decls.map Decl.encode)).draftAt 1).reading.decls = .ok decls := by
    simpa [Fields.required, Fields.find?, Json.fieldsAt, draftFieldsAt, Draft.fieldReadings] using nodes
  rw [draftAt, Json.enclosed, if_pos (by decide)] at list
  have each := Reading.listOf_eq_ok list
  simp only [readings_draftItemsAt, List.forall_mem_map] at each
  have declNesting : nestingItems (program.decls.map Decl.encode) ≤ maxDepth - 2 := by
    apply nestingItems_le
    simp only [List.forall_mem_map]
    intro declaration member
    obtain ⟨_, read⟩ := each declaration member
    have := Decl.nesting_of_reading (by decide) read
    omega
  have importNesting : nestingItems (program.imports.map Import.encode) ≤ 1 := by
    apply nestingItems_le
    simp only [List.forall_mem_map]
    exact fun _ _ => le_rfl
  simp only [Program.encode, Json.nesting, nestingFields]
  rw [maxDepth] at declNesting ⊢
  omega

end Nesting

section Literals

theorem Reading.optional_eq_ok {α : Type} {role : Reading → Except Fault α} {reading : Reading}
    {result : Option α} (real : reading.isNull = false) (read : Reading.optional role reading = .ok result) :
    ∃ value, role reading = .ok value := by
  rw [Reading.optional, real, if_neg Bool.false_ne_true] at read
  cases found : role reading with
  | error fault =>
    rw [found] at read
    cases read
  | ok value => exact ⟨value, rfl⟩

theorem Fields.call_eq_ok {callee : Expr} {args : List Expr} {type : Option Ty}
    {result : Expr × List Expr × Option Ty}
    (read : (Json.fields (("kind", .text "methodCall") ::
      ([("from", callee.encode), ("args", .list (encodeArgs args))] ++ typeField type))).call = .ok result) :
    (∃ value, callee.encode.draft.reading.expr = .ok value) ∧
      ∃ values, (Json.list (encodeArgs args)).draft.reading.exprs = .ok values := by
  obtain ⟨-, read⟩ := bind_unit_eq_ok_iff.mp read
  obtain ⟨value, first, read⟩ := bind_eq_ok_iff.mp read
  obtain ⟨values, second, -⟩ := bind_eq_ok_iff.mp read
  exact ⟨⟨value, by simpa using first⟩, ⟨values, by simpa using second⟩⟩

mutual

theorem Expr.finite_of_reading (expr : Expr) {result : Expr} (read : expr.encode.draft.reading.expr = .ok result) :
    ∀ part ∈ expr.parts, part.IsFinite := by
  match expr with
  | .call callee args type =>
    rw [Expr.encode, Json.node, Json.reading_object] at read
    simp only [Reading.ofFields] at read
    rw [Fields.expr, Fields.kind_fields (by simp [Fields.exprKinds]) (by cases type <;> simp), ok_bind] at read
    obtain ⟨_, call, -⟩ := bind_eq_ok_iff.mp read
    obtain ⟨⟨_, calleeReads⟩, ⟨_, argsRead⟩⟩ := Fields.call_eq_ok call
    simp only [Expr.parts, List.forall_mem_append, List.forall_mem_singleton]
    exact ⟨⟨callee.finite_of_reading calleeReads, finite_of_readings args argsRead⟩, trivial⟩
  | .arithmetic operator left right type =>
    rw [Expr.encode, Json.node, Json.reading_object] at read
    simp only [Reading.ofFields] at read
    rw [Fields.expr, Fields.kind_fields (by simp [Fields.exprKinds]) (by cases type <;> simp), ok_bind] at read
    obtain ⟨-, read⟩ := bind_unit_eq_ok_iff.mp read
    obtain ⟨_, -, read⟩ := bind_eq_ok_iff.mp read
    obtain ⟨leftValue, leftReads, read⟩ := bind_eq_ok_iff.mp read
    obtain ⟨rightValue, rightReads, -⟩ := bind_eq_ok_iff.mp read
    have leftReads : left.encode.draft.reading.expr = .ok leftValue := by simpa using leftReads
    have rightReads : right.encode.draft.reading.expr = .ok rightValue := by simpa using rightReads
    simp only [Expr.parts, List.forall_mem_append, List.forall_mem_singleton]
    exact ⟨⟨left.finite_of_reading leftReads, right.finite_of_reading rightReads⟩, trivial⟩
  | .index base position type =>
    rw [Expr.encode, Json.node, Json.reading_object] at read
    simp only [Reading.ofFields] at read
    rw [Fields.expr, Fields.kind_fields (by simp [Fields.exprKinds]) (by cases type <;> simp), ok_bind] at read
    obtain ⟨-, read⟩ := bind_unit_eq_ok_iff.mp read
    obtain ⟨baseValue, baseReads, read⟩ := bind_eq_ok_iff.mp read
    obtain ⟨positionValue, positionReads, -⟩ := bind_eq_ok_iff.mp read
    have baseReads : base.encode.draft.reading.expr = .ok baseValue := by simpa using baseReads
    have positionReads : position.encode.draft.reading.expr = .ok positionValue := by simpa using positionReads
    simp only [Expr.parts, List.forall_mem_append, List.forall_mem_singleton]
    exact ⟨⟨base.finite_of_reading baseReads, position.finite_of_reading positionReads⟩, trivial⟩
  | .property base name type =>
    rw [Expr.encode, Json.node, Json.reading_object] at read
    simp only [Reading.ofFields] at read
    rw [Fields.expr, Fields.kind_fields (by simp [Fields.exprKinds]) (by cases type <;> simp), ok_bind] at read
    obtain ⟨-, read⟩ := bind_unit_eq_ok_iff.mp read
    obtain ⟨baseValue, baseReads, -⟩ := bind_eq_ok_iff.mp read
    have baseReads : base.encode.draft.reading.expr = .ok baseValue := by simpa using baseReads
    simp only [Expr.parts, List.forall_mem_append, List.forall_mem_singleton]
    exact ⟨base.finite_of_reading baseReads, trivial⟩
  | .var name type | .string value type | .int value type | .bool value type =>
    rw [Expr.parts, List.forall_mem_singleton]
    trivial
  | .real value type =>
    rw [Expr.parts, List.forall_mem_singleton]
    by_contra infinite
    have written : encodeReal value = .null := if_neg infinite
    rw [Expr.encode, written, Json.node, Json.reading_object] at read
    simp only [Reading.ofFields] at read
    rw [Fields.expr, Fields.kind_fields (by simp [Fields.exprKinds]) (by cases type <;> simp), ok_bind] at read
    obtain ⟨-, read⟩ := bind_unit_eq_ok_iff.mp read
    obtain ⟨found, valueReads, -⟩ := bind_eq_ok_iff.mp read
    -- `null` is of no shape that a literal may have
    have shapeless : Json.null.draft.reading.real = .ok found := by simpa using valueReads
    cases shapeless

theorem finite_of_readings (args : List Expr) {results : List Expr}
    (read : (Json.list (encodeArgs args)).draft.reading.exprs = .ok results) :
    ∀ part ∈ argsParts args, part.IsFinite := by
  match args with
  | [] => exact fun _ member => (nomatch member)
  | arg :: args =>
    obtain ⟨⟨_, first⟩, _, others⟩ := Reading.listOf_cons_eq_ok read
    rw [argsParts, List.forall_mem_append]
    exact ⟨arg.finite_of_reading first, finite_of_readings args others⟩

end

mutual

theorem Stmt.finite_of_reading (statement : Stmt) {result : Stmt}
    (read : statement.encode.draft.reading.stmt = .ok result) : ∀ part ∈ statement.exprs, part.IsFinite := by
  match statement with
  | .declare name type none => exact fun _ member => (nomatch member)
  | .declare name type (some value) =>
    rw [Stmt.encode, Json.node, Json.reading_object] at read
    simp only [Reading.ofFields] at read
    rw [Fields.stmt, Fields.kind_fields (by simp [Fields.stmtKinds]) (by simp), ok_bind] at read
    obtain ⟨-, read⟩ := bind_unit_eq_ok_iff.mp read
    obtain ⟨_, -, read⟩ := bind_eq_ok_iff.mp read
    obtain ⟨_, -, read⟩ := bind_eq_ok_iff.mp read
    obtain ⟨found, field, -⟩ := bind_eq_ok_iff.mp read
    have valueReads : Reading.optional Reading.expr value.encode.draft.reading = .ok found := by simpa using field
    obtain ⟨_, valueReads⟩ := Reading.optional_eq_ok (by cases value <;> rfl) valueReads
    exact value.finite_of_reading valueReads
  | .assign target value =>
    rw [Stmt.encode, Json.node, Json.reading_object] at read
    simp only [Reading.ofFields] at read
    rw [Fields.stmt, Fields.kind_fields (by simp [Fields.stmtKinds]) (by simp), ok_bind] at read
    obtain ⟨-, read⟩ := bind_unit_eq_ok_iff.mp read
    obtain ⟨targetValue, targetReads, read⟩ := bind_eq_ok_iff.mp read
    obtain ⟨newValue, valueReads, -⟩ := bind_eq_ok_iff.mp read
    have targetReads : target.encode.draft.reading.expr = .ok targetValue := by simpa using targetReads
    have valueReads : value.encode.draft.reading.expr = .ok newValue := by simpa using valueReads
    rw [Stmt.exprs, List.forall_mem_append]
    exact ⟨value.finite_of_reading valueReads, target.finite_of_reading targetReads⟩
  | .branch condition thenBranch elseBranch =>
    rw [Stmt.encode, Json.node, Json.reading_object] at read
    simp only [Reading.ofFields] at read
    rw [Fields.stmt, Fields.kind_fields (by simp [Fields.stmtKinds]) (by cases elseBranch <;> simp),
      ok_bind] at read
    obtain ⟨-, read⟩ := bind_unit_eq_ok_iff.mp read
    obtain ⟨conditionValue, conditionReads, read⟩ := bind_eq_ok_iff.mp read
    obtain ⟨thenValue, thenReads, read⟩ := bind_eq_ok_iff.mp read
    obtain ⟨found, field, -⟩ := bind_eq_ok_iff.mp read
    have conditionReads : condition.encode.draft.reading.expr = .ok conditionValue := by simpa using conditionReads
    have thenReads : thenBranch.encode.draft.reading.stmt = .ok thenValue := by simpa using thenReads
    rw [Stmt.exprs, List.forall_mem_append, List.forall_mem_append]
    refine ⟨⟨condition.finite_of_reading conditionReads, thenBranch.finite_of_reading thenReads⟩, ?_⟩
    match elseBranch with
    | none => exact fun _ member => (nomatch member)
    | some branch =>
      have elseReads : Reading.optional Reading.stmt branch.encode.draft.reading = .ok found := by
        simpa using field
      obtain ⟨_, elseReads⟩ := Reading.optional_eq_ok (by cases branch <;> rfl) elseReads
      exact branch.finite_of_reading elseReads
  | .call callee args type =>
    rw [Stmt.encode, Expr.encode, Json.node, Json.reading_object] at read
    simp only [Reading.ofFields] at read
    rw [Fields.stmt, Fields.kind_fields (by simp [Fields.stmtKinds]) (by cases type <;> simp), ok_bind] at read
    obtain ⟨_, call, -⟩ := bind_eq_ok_iff.mp read
    obtain ⟨⟨_, calleeReads⟩, ⟨_, argsRead⟩⟩ := Fields.call_eq_ok call
    simp only [Stmt.exprs, Expr.parts, List.forall_mem_append, List.forall_mem_singleton]
    exact ⟨⟨callee.finite_of_reading calleeReads, finite_of_readings args argsRead⟩, trivial⟩
  | .block lines =>
    rw [Stmt.encode, Json.node, Json.reading_object] at read
    simp only [Reading.ofFields] at read
    rw [Fields.stmt, Fields.kind_fields (by simp [Fields.stmtKinds]) (by simp), ok_bind] at read
    obtain ⟨_, scope, -⟩ := bind_eq_ok_iff.mp read
    obtain ⟨-, list⟩ := bind_unit_eq_ok_iff.mp scope
    exact finite_of_lineReadings lines (by simpa using list)

theorem finite_of_lineReadings (lines : List Stmt) {results : List Stmt}
    (read : (Json.list (encodeLines lines)).draft.reading.stmts = .ok results) :
    ∀ part ∈ linesExprs lines, part.IsFinite := by
  match lines with
  | [] => exact fun _ member => (nomatch member)
  | line :: lines =>
    obtain ⟨⟨_, first⟩, _, others⟩ := Reading.listOf_cons_eq_ok read
    rw [linesExprs, List.forall_mem_append]
    exact ⟨line.finite_of_reading first, finite_of_lineReadings lines others⟩

end

theorem Decl.finite_of_reading {declaration result : Decl}
    (read : declaration.encode.draft.reading.decl = .ok result) :
    ∀ part ∈ declaration.exprs, part.IsFinite := by
  cases declaration with
  | object declaration => exact fun _ member => (nomatch member)
  | function declaration =>
    rw [Decl.encode, Json.node, Json.reading_object, FunctionDecl.encodeFields] at read
    simp only [Reading.ofFields, Fields.decl] at read
    rw [Fields.kind_fields (by simp) (by simp), ok_bind] at read
    obtain ⟨_, functionReads, -⟩ := bind_eq_ok_iff.mp read
    obtain ⟨-, read⟩ := bind_unit_eq_ok_iff.mp functionReads
    obtain ⟨_, -, read⟩ := bind_eq_ok_iff.mp read
    obtain ⟨_, -, read⟩ := bind_eq_ok_iff.mp read
    obtain ⟨_, -, read⟩ := bind_eq_ok_iff.mp read
    obtain ⟨_, -, read⟩ := bind_eq_ok_iff.mp read
    obtain ⟨body, bodyReads, -⟩ := bind_eq_ok_iff.mp read
    have scope : (encodeScope declaration.body).draft.reading.scope = .ok body := by simpa using bodyReads
    rw [encodeScope, Json.reading_object] at scope
    obtain ⟨-, list⟩ := bind_unit_eq_ok_iff.mp scope
    exact finite_of_lineReadings declaration.body (by simpa using list)

theorem readings_draftItems (items : List Json) :
    Draft.readings (Json.draftItems items) = items.map fun item => item.draft.reading := by
  induction items with
  | nil => rfl
  | cons item items ih => rw [Json.draftItems, Draft.readings, List.map_cons, ih]

theorem Program.finite_of_reading {program result : Program}
    (read : program.encode.draft.reading.program = .ok result) : ∀ part ∈ program.exprs, part.IsFinite := by
  rw [Program.encode, Json.reading_object] at read
  obtain ⟨_, _, read⟩ := bind_eq_ok_iff.mp read
  obtain ⟨_, _, read⟩ := bind_eq_ok_iff.mp read
  obtain ⟨decls, nodes, _⟩ := bind_eq_ok_iff.mp read
  have list : (Json.list (program.decls.map Decl.encode)).draft.reading.decls = .ok decls := by
    simpa using nodes
  have each := Reading.listOf_eq_ok list
  simp only [readings_draftItems, List.forall_mem_map] at each
  intro part member
  obtain ⟨declaration, inside, member⟩ := List.mem_flatMap.mp member
  obtain ⟨_, reads⟩ := each declaration inside
  exact Decl.finite_of_reading reads part member

end Literals

end TypedTree
