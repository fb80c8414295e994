import TypedTree.Error
import TypedTree.Tree.Decode
import TypedTree.Tree.Encode
import TypedTree.Proofs.Parts
/-! Reading back what has been written. A complete value has no fault of its text, so a record is read as
soon as its names are different and every field has the role the record expects; then the whole tree is
read bottom up, from the fields of each node. -/

namespace TypedTree

open Json (Fault)

namespace Json

def fields (entries : List (String × Json)) : Fields where
  entries := entries.map fun entry => (entry.1, entry.2.draft.reading)
  ending := none

theorem fieldReadings_draftFields (entries : List (String × Json)) :
    Draft.fieldReadings (draftFields entries) = (fields entries).entries := by
  induction entries with
  | nil => rfl
  | cons entry entries rest =>
    rw [draftFields, Draft.fieldReadings, rest]
    rfl

theorem reading_object (entries : List (String × Json)) :
    (object entries).draft.reading = .ofFields (fields entries) := by
  rw [draft, Draft.reading, fieldReadings_draftFields]
  rfl

mutual

theorem clean_reading (json : Json) :
    json.draft.reading.whole = none ∧ json.draft.reading.passing = none := by
  match json with
  | null | bool _ | int _ | real _ | text _ => exact ⟨rfl, rfl⟩
  | list items => exact clean_readings items
  | object entries => exact clean_fieldReadings entries

theorem clean_readings (items : List Json) :
    Reading.itemsFault Reading.whole none (Draft.readings (draftItems items)) = none ∧
      Reading.itemsFault Reading.passing none (Draft.readings (draftItems items)) = none := by
  match items with
  | [] => exact ⟨rfl, rfl⟩
  | item :: items =>
    obtain ⟨whole, passing⟩ := clean_reading item
    obtain ⟨restWhole, restPassing⟩ := clean_readings items
    simp only [draftItems, Draft.readings, Reading.itemsFault, whole, passing, restWhole, restPassing,
      Option.or_none, and_self]

theorem clean_fieldReadings (entries : List (String × Json)) :
    Reading.itemsFault Reading.whole none ((Draft.fieldReadings (draftFields entries)).map Prod.snd) = none ∧
      Reading.itemsFault Reading.passing none
        ((Draft.fieldReadings (draftFields entries)).map Prod.snd) = none := by
  match entries with
  | [] => exact ⟨rfl, rfl⟩
  | (name, value) :: entries =>
    obtain ⟨whole, passing⟩ := clean_reading value
    obtain ⟨restWhole, restPassing⟩ := clean_fieldReadings entries
    simp only [draftFields, Draft.fieldReadings, List.map_cons, Reading.itemsFault, whole, passing,
      restWhole, restPassing, Option.or_none, and_self]

end

end Json

namespace Fields

variable {roles : Roles} {entries : List (String × Json)} {kinds : List String} {kind name other : String}
  {inner : Bool} {json : Json}

theorem firstFault_eq_none {seen : List String} (distinct : (entries.map Prod.fst).Nodup)
    (unseen : ∀ entry ∈ entries, entry.1 ∉ seen)
    (fits : ∀ role ∈ roles, ∀ entry ∈ entries, entry.1 = role.1 → role.2 entry.2.draft.reading = none) :
    firstFault roles seen (Json.fields entries).entries = none := by
  induction entries generalizing seen with
  | nil => rfl
  | cons entry entries rest =>
    obtain ⟨fresh, distinct⟩ := List.nodup_cons.mp distinct
    obtain ⟨new, unseen⟩ := List.forall_mem_cons.mp unseen
    have here : fieldFault roles seen entry.1 entry.2.draft.reading = none := by
      rw [fieldFault]
      split
      · exact entry.2.clean_reading.right
      next role found =>
        have member := List.mem_of_find?_eq_some found
        have named : role.1 = entry.1 := by simpa using List.find?_some found
        rw [if_neg (by simpa using new)]
        exact fits role member entry List.mem_cons_self named.symm
    have behind : ∀ later ∈ entries, later.1 ∉ entry.1 :: seen := by
      intro later member
      rw [List.mem_cons, not_or]
      exact ⟨fun same => fresh (same ▸ List.mem_map_of_mem member), unseen later member⟩
    have others := rest distinct behind fun role known later member =>
      fits role known later (List.mem_cons_of_mem _ member)
    simp only [Json.fields, List.map_cons, firstFault, here, Option.none_or]
    exact others

/-- A record is read without a fault if no name in it is repeated and every field has its role. -/
theorem check_fields (distinct : (entries.map Prod.fst).Nodup)
    (fits : ∀ role ∈ roles, ∀ entry ∈ entries, entry.1 = role.1 → role.2 entry.2.draft.reading = none) :
    (Json.fields entries).check roles = .ok () := by
  rw [check, firstFault_eq_none distinct (fun _ _ => List.not_mem_nil) fits]
  rfl

theorem scanKind_of_free {found : Option String} (free : ∀ entry ∈ entries, entry.1 ≠ "kind") :
    scanKind kinds inner found (Json.fields entries).entries = .ok found := by
  induction entries with
  | nil => rfl
  | cons entry entries rest =>
    obtain ⟨other, free⟩ := List.forall_mem_cons.mp free
    simp only [Json.fields, List.map_cons, scanKind, if_neg other, entry.2.clean_reading.left]
    exact rest free

theorem kind_fields (known : kind ∈ kinds) (free : ∀ entry ∈ entries, entry.1 ≠ "kind") :
    (Json.fields (("kind", .text kind) :: entries)).kind kinds inner = .ok kind := by
  have named : kindOf kinds inner (Json.text kind).draft.reading = .ok kind := by
    simp only [Json.draft, Json.Draft.reading, kindOf, Reading.ofText, Reading.shapeless, Reading.failing]
    exact if_pos (List.contains_iff_mem.mpr known)
  have scanned : scanKind kinds inner none (Json.fields (("kind", .text kind) :: entries)).entries =
      .ok (some kind) := by
    simp only [Json.fields, List.map_cons, scanKind, if_true, named]
    exact scanKind_of_free free
  rw [Fields.kind, scanned]
  rfl

variable {α : Type} {read : Reading → Except Fault α} {absent : α}

theorem find?_cons : (Json.fields ((other, json) :: entries)).find? name =
    if other = name then some json.draft.reading else (Json.fields entries).find? name := by
  by_cases same : other = name <;> simp [find?, Json.fields, same]

@[simp] theorem required_cons : (Json.fields ((other, json) :: entries)).required name read =
    if other = name then read json.draft.reading else (Json.fields entries).required name read := by
  rw [required, find?_cons]
  by_cases same : other = name
  · rw [if_pos same, if_pos same]
  · rw [if_neg same, if_neg same, required]

@[simp] theorem withDefault_cons :
    (Json.fields ((other, json) :: entries)).withDefault name absent read =
      if other = name then read json.draft.reading else (Json.fields entries).withDefault name absent read := by
  rw [withDefault, find?_cons]
  by_cases same : other = name
  · rw [if_pos same, if_pos same]
  · rw [if_neg same, if_neg same, withDefault]

@[simp] theorem optional_cons : (Json.fields ((other, json) :: entries)).optional name read =
    if other = name then Reading.optional read json.draft.reading
    else (Json.fields entries).optional name read :=
  withDefault_cons

@[simp] theorem optional_nil : (Json.fields []).optional name read = .ok none := rfl

end Fields

theorem Reading.listOf_cons {α : Type} {role : Reading → Except Fault α} {item : Reading}
    {items : List Reading} {value : α} {values : List α} (first : role item = .ok value)
    (rest : Reading.listOf role none items = .ok values) :
    Reading.listOf role none (item :: items) = .ok (value :: values) := by
  obtain ⟨others, found, same⟩ := bind_eq_ok_iff.mp rest
  cases same
  rw [listOf, bind_eq_ok_iff]
  exact ⟨value :: values, mapM_cons_eq_ok_iff.mpr ⟨value, values, first, found, rfl⟩, rfl⟩

theorem Reading.listOf_map {α β : Type} {role : Reading → Except Fault β} {encode : α → Json} {back : α → β}
    {values : List α} (each : ∀ value ∈ values, role (encode value).draft.reading = .ok (back value)) :
    Reading.listOf role none (Json.Draft.readings (Json.draftItems (values.map encode))) =
      .ok (values.map back) := by
  induction values with
  | nil => rfl
  | cons value values rest =>
    obtain ⟨first, each⟩ := List.forall_mem_cons.mp each
    exact listOf_cons first (rest each)

theorem Reading.optional_of_ok {α : Type} {role : Reading → Except Fault α} {reading : Reading} {value : α}
    (real : reading.isNull = false) (reads : role reading = .ok value) :
    Reading.optional role reading = .ok (some value) := by
  rw [optional, real, reads]
  rfl

@[simp] theorem typeField_none : typeField none = [] := rfl

@[simp] theorem typeField_some (type : Ty) : typeField (some type) = [("type", type.encode)] := rfl

@[simp] theorem optionalField_none (name : String) : optionalField name none = [] := rfl

@[simp] theorem optionalField_some (name : String) (json : Json) :
    optionalField name (some json) = [(name, json)] := rfl

@[simp] theorem faultOf_ok {α : Type} (value : α) : faultOf (.ok value) = none := rfl

@[simp] theorem ok_bind {α β : Type} (value : α) (next : α → Except Fault β) :
    Except.ok value >>= next = next value := rfl

@[simp] theorem map_ok {α β : Type} (value : α) (change : α → β) :
    change <$> (.ok value : Except Fault α) = .ok (change value) := rfl

namespace Json

@[simp] theorem reading_text (value : String) : (text value).draft.reading.text = .ok value := rfl

@[simp] theorem reading_flag (value : Bool) : (bool value).draft.reading.flag = .ok value := rfl

@[simp] theorem reading_real (value : Float) : (real value).draft.reading.real = .ok value := rfl

@[simp] theorem reading_int (value : Int64) : (int value.toInt).draft.reading.int = .ok value := by
  have fits : fitsInt64 value.toInt = true := by
    simp only [fitsInt64, Int64.minValue_le_toInt, Int64.toInt_le, decide_true, Bool.and_self]
  simp only [draft, Draft.reading, Reading.ofInt, fits, if_true, Int64.ofInt_toInt]

@[simp] theorem reading_operator (operator : Operator) :
    (text operator.symbol).draft.reading.operator = .ok operator := by
  simp only [draft, Draft.reading, Reading.ofText, Operator.ofSymbol?_symbol]

end Json

mutual

@[simp] theorem Ty.reading_encode (type : Ty) : type.encode.draft.reading.type = .ok type := by
  match type with
  | ⟨name, isArray, none⟩ =>
    rw [Ty.encode, Ty.encodeParams, Json.reading_object]
    rfl
  | ⟨name, isArray, some params⟩ =>
    have list : (Json.list (encodeList params)).draft.reading.types = .ok params :=
      readings_encodeList params
    have field := Reading.optional_of_ok rfl list
    rw [Ty.encode, Ty.encodeParams, Json.reading_object]
    simp only [Reading.ofFields, Fields.type]
    rw [Fields.check_fields, ok_bind]
    · simp [field]
    case distinct => simp
    case fits => simp [Fields.role, field]

theorem Ty.readings_encodeList (types : List Ty) :
    Reading.listOf Reading.type none (Json.Draft.readings (Json.draftItems (Ty.encodeList types))) =
      .ok types := by
  match types with
  | [] => rfl
  | type :: types => exact Reading.listOf_cons type.reading_encode (readings_encodeList types)

end

@[simp] theorem Ty.optional_encode (type : Ty) :
    Reading.optional Reading.type type.encode.draft.reading = .ok (some type) := by
  apply Reading.optional_of_ok _ type.reading_encode
  obtain ⟨name, isArray, params⟩ := type
  rw [Ty.encode, Json.reading_object]
  rfl

theorem TypedName.reading_encode (entry : TypedName) :
    entry.encode.draft.reading.typedName = .ok entry := by
  rw [TypedName.encode, Json.reading_object]
  simp only [Reading.ofFields, Fields.typedName]
  rw [Fields.check_fields, ok_bind]
  · simp
  case distinct => simp
  case fits => simp [Fields.role]

/-- A literal that is not an infinite or undefined real. -/
def Expr.IsFinite : Expr → Prop
  | .real value _ => value.isFinite = true
  | _ => True

theorem Fields.call_fields {callee : Expr} {args : List Expr} (type : Option Ty)
    (reads : callee.encode.draft.reading.expr = .ok callee)
    (list : (Json.list (encodeArgs args)).draft.reading.exprs = .ok args) :
    (Json.fields (("kind", .text "methodCall") ::
      ([("from", callee.encode), ("args", .list (encodeArgs args))] ++ typeField type))).call =
        .ok (callee, args, type) := by
  rw [Fields.call, Fields.check_fields, ok_bind]
  · cases type <;> simp [reads, list]
  · cases type <;> simp
  · cases type <;> simp [Fields.role, reads, list]

theorem Fields.leaf_fields {α : Type} {kind name : String} {json : Json} {read : Reading → Except Fault α}
    {value : α} (type : Option Ty) (build : α → Option Ty → Expr) (unkind : "kind" ≠ name)
    (untype : "type" ≠ name) (reads : read json.draft.reading = .ok value) :
    (do
      (Json.fields (("kind", .text kind) :: ([(name, json)] ++ typeField type))).check
        [role name read, inferredType]
      return build
        (← (Json.fields (("kind", .text kind) :: ([(name, json)] ++ typeField type))).required name read)
        (← (Json.fields (("kind", .text kind) :: ([(name, json)] ++ typeField type))).optional "type"
          Reading.type)) = .ok (build value type) := by
  rw [Fields.check_fields, ok_bind]
  · cases type <;> simp [reads, unkind, Ne.symm untype]
  case distinct => cases type <;> simp [unkind, Ne.symm untype]
  case fits => cases type <;> simp [Fields.role, Fields.inferredType, reads, unkind, untype, Ne.symm untype]

theorem expr_of_fields {entries : List (String × Json)} {expr : Expr}
    (reads : ∀ inner, (Json.fields entries).expr inner = .ok expr) :
    (Json.object entries).draft.reading.expr = .ok expr ∧
      (Json.object entries).draft.reading.outerExpr = .ok expr := by
  rw [Json.reading_object]
  exact ⟨reads true, reads false⟩

mutual

theorem Expr.reading_encode (expr : Expr) (finite : ∀ part ∈ expr.parts, part.IsFinite) :
    expr.encode.draft.reading.expr = .ok expr ∧ expr.encode.draft.reading.outerExpr = .ok expr := by
  match expr with
  | .call callee args type =>
    simp only [Expr.parts, List.forall_mem_append] at finite
    obtain ⟨reads, -⟩ := callee.reading_encode finite.left.left
    have list := readings_encodeArgs args finite.left.right
    apply expr_of_fields
    intro inner
    rw [Fields.expr, Fields.kind_fields (by simp [Fields.exprKinds]) (by cases type <;> simp), ok_bind]
    simp only
    rw [Fields.call_fields type reads list]
    rfl
  | .arithmetic operator left right type =>
    simp only [Expr.parts, List.forall_mem_append] at finite
    obtain ⟨leftReads, -⟩ := left.reading_encode finite.left.left
    obtain ⟨rightReads, -⟩ := right.reading_encode finite.left.right
    apply expr_of_fields
    intro inner
    rw [Fields.expr, Fields.kind_fields (by simp [Fields.exprKinds]) (by cases type <;> simp), ok_bind]
    simp only
    rw [Fields.check_fields, ok_bind]
    · cases type <;> simp [leftReads, rightReads]
    case distinct => cases type <;> simp
    case fits => cases type <;> simp [Fields.role, Fields.inferredType, leftReads, rightReads]
  | .var name type =>
    apply expr_of_fields
    intro inner
    rw [Fields.expr, Fields.kind_fields (by simp [Fields.exprKinds]) (by cases type <;> simp), ok_bind]
    exact Fields.leaf_fields type .var (by simp) (by simp) (Json.reading_text name)
  | .index base position type =>
    simp only [Expr.parts, List.forall_mem_append] at finite
    obtain ⟨baseReads, -⟩ := base.reading_encode finite.left.left
    obtain ⟨positionReads, -⟩ := position.reading_encode finite.left.right
    apply expr_of_fields
    intro inner
    rw [Fields.expr, Fields.kind_fields (by simp [Fields.exprKinds]) (by cases type <;> simp), ok_bind]
    simp only
    rw [Fields.check_fields, ok_bind]
    · cases type <;> simp [baseReads, positionReads]
    case distinct => cases type <;> simp
    case fits => cases type <;> simp [Fields.role, Fields.inferredType, baseReads, positionReads]
  | .property base name type =>
    simp only [Expr.parts, List.forall_mem_append] at finite
    obtain ⟨baseReads, -⟩ := base.reading_encode finite.left
    apply expr_of_fields
    intro inner
    rw [Fields.expr, Fields.kind_fields (by simp [Fields.exprKinds]) (by cases type <;> simp), ok_bind]
    simp only
    rw [Fields.check_fields, ok_bind]
    · cases type <;> simp [baseReads]
    case distinct => cases type <;> simp
    case fits => cases type <;> simp [Fields.role, Fields.inferredType, baseReads]
  | .string value type =>
    apply expr_of_fields
    intro inner
    rw [Fields.expr, Fields.kind_fields (by simp [Fields.exprKinds]) (by cases type <;> simp), ok_bind]
    exact Fields.leaf_fields type .string (by simp) (by simp) (Json.reading_text value)
  | .int value type =>
    apply expr_of_fields
    intro inner
    rw [Fields.expr, Fields.kind_fields (by simp [Fields.exprKinds]) (by cases type <;> simp), ok_bind]
    exact Fields.leaf_fields type .int (by simp) (by simp) (Json.reading_int value)
  | .bool value type =>
    apply expr_of_fields
    intro inner
    rw [Fields.expr, Fields.kind_fields (by simp [Fields.exprKinds]) (by cases type <;> simp), ok_bind]
    exact Fields.leaf_fields type .bool (by simp) (by simp) (Json.reading_flag value)
  | .real value type =>
    rw [Expr.parts, List.forall_mem_singleton] at finite
    have written : encodeReal value = .real value := if_pos finite
    apply expr_of_fields
    intro inner
    rw [written, Fields.expr, Fields.kind_fields (by simp [Fields.exprKinds]) (by cases type <;> simp), ok_bind]
    exact Fields.leaf_fields type .real (by simp) (by simp) (Json.reading_real value)

theorem readings_encodeArgs (args : List Expr) (finite : ∀ part ∈ argsParts args, part.IsFinite) :
    Reading.listOf Reading.expr none (Json.Draft.readings (Json.draftItems (encodeArgs args))) =
      .ok args := by
  match args with
  | [] => rfl
  | arg :: args =>
    rw [argsParts, List.forall_mem_append] at finite
    exact Reading.listOf_cons (arg.reading_encode finite.left).left (readings_encodeArgs args finite.right)

end

theorem Expr.optional_encode {expr : Expr} (reads : expr.encode.draft.reading.expr = .ok expr) :
    Reading.optional Reading.expr expr.encode.draft.reading = .ok (some expr) := by
  apply Reading.optional_of_ok _ reads
  cases expr <;> rfl

@[simp] theorem encodeElse_none : encodeElse none = none := rfl

@[simp] theorem encodeElse_some (branch : Stmt) : encodeElse (some branch) = some branch.encode := rfl

theorem Stmt.optional_encode {statement : Stmt}
    (reads : statement.encode.draft.reading.stmt = .ok statement) :
    Reading.optional Reading.stmt statement.encode.draft.reading = .ok (some statement) := by
  apply Reading.optional_of_ok _ reads
  cases statement <;> rfl

theorem stmt_of_fields {entries : List (String × Json)} {statement : Stmt}
    (reads : ∀ inner, (Json.fields entries).stmt inner = .ok statement) :
    (Json.object entries).draft.reading.stmt = .ok statement ∧
      (Json.object entries).draft.reading.outerStmt = .ok statement := by
  rw [Json.reading_object]
  exact ⟨reads true, reads false⟩

mutual

theorem Stmt.reading_encode (statement : Stmt) (finite : ∀ part ∈ statement.exprs, part.IsFinite) :
    statement.encode.draft.reading.stmt = .ok statement ∧
      statement.encode.draft.reading.outerStmt = .ok statement := by
  match statement with
  | .declare name type none =>
    apply stmt_of_fields
    intro inner
    rw [Fields.stmt, Fields.kind_fields (by simp [Fields.stmtKinds]) (by simp), ok_bind]
    simp only
    rw [Fields.check_fields, ok_bind]
    · simp
    case distinct => simp
    case fits => simp [Fields.role]
  | .declare name type (some value) =>
    obtain ⟨reads, -⟩ := value.reading_encode finite
    have field := value.optional_encode reads
    apply stmt_of_fields
    intro inner
    rw [Fields.stmt, Fields.kind_fields (by simp [Fields.stmtKinds]) (by simp), ok_bind]
    simp only
    rw [Fields.check_fields, ok_bind]
    · simp [field]
    case distinct => simp
    case fits => simp [Fields.role, field]
  | .assign target value =>
    simp only [Stmt.exprs, List.forall_mem_append] at finite
    obtain ⟨valueReads, -⟩ := value.reading_encode finite.left
    obtain ⟨targetReads, -⟩ := target.reading_encode finite.right
    apply stmt_of_fields
    intro inner
    rw [Fields.stmt, Fields.kind_fields (by simp [Fields.stmtKinds]) (by simp), ok_bind]
    simp only
    rw [Fields.check_fields, ok_bind]
    · simp [valueReads, targetReads]
    case distinct => simp
    case fits => simp [Fields.role, valueReads, targetReads]
  | .branch condition thenBranch none =>
    simp only [Stmt.exprs, List.forall_mem_append] at finite
    obtain ⟨conditionReads, -⟩ := condition.reading_encode finite.left.left
    obtain ⟨thenReads, -⟩ := thenBranch.reading_encode finite.left.right
    apply stmt_of_fields
    intro inner
    rw [Fields.stmt, Fields.kind_fields (by simp [Fields.stmtKinds]) (by simp), ok_bind]
    simp only
    rw [Fields.check_fields, ok_bind]
    · simp [conditionReads, thenReads]
    case distinct => simp
    case fits => simp [Fields.role, conditionReads, thenReads]
  | .branch condition thenBranch (some elseBranch) =>
    simp only [Stmt.exprs, List.forall_mem_append, elseExprs] at finite
    obtain ⟨conditionReads, -⟩ := condition.reading_encode finite.left.left
    obtain ⟨thenReads, -⟩ := thenBranch.reading_encode finite.left.right
    obtain ⟨elseReads, -⟩ := elseBranch.reading_encode finite.right
    have field := elseBranch.optional_encode elseReads
    apply stmt_of_fields
    intro inner
    rw [Fields.stmt, Fields.kind_fields (by simp [Fields.stmtKinds]) (by simp), ok_bind]
    simp only
    rw [Fields.check_fields, ok_bind]
    · simp [conditionReads, thenReads, field]
    case distinct => simp
    case fits => simp [Fields.role, conditionReads, thenReads, field]
  | .call callee args type =>
    simp only [Stmt.exprs, Expr.parts, List.forall_mem_append] at finite
    obtain ⟨reads, -⟩ := callee.reading_encode finite.left.left
    have list := readings_encodeArgs args finite.left.right
    apply stmt_of_fields
    intro inner
    rw [Fields.stmt, Fields.kind_fields (by simp [Fields.stmtKinds]) (by cases type <;> simp), ok_bind]
    simp only
    rw [Fields.call_fields type reads list]
    rfl
  | .block lines =>
    obtain ⟨list, -⟩ := readings_encodeLines lines finite
    have scope : (Json.fields [("kind", .text "scope"), ("lines", .list (encodeLines lines))]).scope
        Reading.stmts = .ok lines := by
      rw [Fields.scope, Fields.check_fields, ok_bind]
      · simp [list]
      · simp
      · simp [Fields.role, list]
    apply stmt_of_fields
    intro inner
    rw [Fields.stmt, Fields.kind_fields (by simp [Fields.stmtKinds]) (by simp), ok_bind]
    simp only
    rw [scope]
    rfl

theorem readings_encodeLines (lines : List Stmt) (finite : ∀ part ∈ linesExprs lines, part.IsFinite) :
    (Json.list (encodeLines lines)).draft.reading.stmts = .ok lines ∧
      (Json.list (encodeLines lines)).draft.reading.outerStmts = .ok lines := by
  match lines with
  | [] => exact ⟨rfl, rfl⟩
  | line :: lines =>
    rw [linesExprs, List.forall_mem_append] at finite
    obtain ⟨first, outerFirst⟩ := line.reading_encode finite.left
    obtain ⟨rest, outerRest⟩ := readings_encodeLines lines finite.right
    exact ⟨Reading.listOf_cons first rest, Reading.listOf_cons outerFirst outerRest⟩

end

theorem Fields.scope_fields {json : Json} {read : Reading → Except Fault (List Stmt)} {lines : List Stmt}
    (reads : read json.draft.reading = .ok lines) :
    (Json.fields [("lines", json)]).scope read = .ok lines := by
  rw [Fields.scope, Fields.check_fields, ok_bind]
  · simp [reads]
  · simp
  · simp [Fields.role, reads]

theorem reading_encodeScope (lines : List Stmt) (finite : ∀ part ∈ linesExprs lines, part.IsFinite) :
    (encodeScope lines).draft.reading.scope = .ok lines ∧
      (encodeScope lines).draft.reading.outerScope = .ok lines := by
  obtain ⟨list, outerList⟩ := readings_encodeLines lines finite
  rw [encodeScope, Json.reading_object]
  exact ⟨Fields.scope_fields list, Fields.scope_fields outerList⟩

theorem readings_typedNames (entries : List TypedName) :
    (Json.list (entries.map TypedName.encode)).draft.reading.typedNames = .ok entries := by
  have each := Reading.listOf_map fun entry (_ : entry ∈ entries) => entry.reading_encode
  rw [List.map_id'] at each
  exact each

theorem Decl.reading_encode (declaration : Decl) (finite : ∀ part ∈ declaration.exprs, part.IsFinite) :
    declaration.encode.draft.reading.decl = .ok declaration := by
  match declaration with
  | .function declaration =>
    obtain ⟨body, -⟩ := reading_encodeScope declaration.body finite
    have params := readings_typedNames declaration.params
    rw [Decl.encode, Json.node, Json.reading_object, FunctionDecl.encodeFields]
    simp only [Reading.ofFields, Fields.decl]
    rw [Fields.kind_fields (by simp) (by simp), ok_bind]
    simp only [Fields.functionDecl]
    rw [Fields.check_fields, ok_bind]
    · simp [body, params]
    case distinct => simp
    case fits => simp [Fields.role, body, params]
  | .object declaration =>
    have properties := readings_typedNames declaration.properties
    rw [Decl.encode, Json.node, Json.reading_object]
    simp only [Reading.ofFields, Fields.decl]
    rw [Fields.kind_fields (by simp) (by simp), ok_bind]
    simp only [Fields.objectDecl]
    rw [Fields.check_fields, ok_bind]
    · simp [properties]
    case distinct => simp
    case fits => simp [Fields.role, properties]

/-- The program behind an import is not written, so that the import comes back without it. -/
theorem Import.reading_encode (entry : Import) :
    entry.encode.draft.reading.importEntry = .ok { path := entry.path } := by
  rw [Import.encode, Json.reading_object]
  simp only [Reading.ofFields, Fields.importEntry]
  rw [Fields.check_fields, ok_bind]
  · simp
  case distinct => simp
  case fits => simp [Fields.role]

theorem Program.reading_encode (program : Program) (finite : ∀ part ∈ program.exprs, part.IsFinite) :
    program.encode.draft.reading.program = .ok program.unresolved := by
  have imports : (Json.list (program.imports.map Import.encode)).draft.reading.imports =
      .ok program.unresolved.imports :=
    Reading.listOf_map fun entry _ => entry.reading_encode
  have decls : (Json.list (program.decls.map Decl.encode)).draft.reading.decls = .ok program.decls := by
    have each : ∀ declaration ∈ program.decls,
        declaration.encode.draft.reading.decl = .ok (id declaration) := by
      intro declaration member
      apply declaration.reading_encode
      intro part inside
      exact finite part (List.mem_flatMap.mpr ⟨declaration, member, inside⟩)
    have list := Reading.listOf_map each
    rw [List.map_id] at list
    exact list
  rw [Program.encode, Json.reading_object]
  simp only [Reading.ofFields, Fields.program]
  rw [Fields.check_fields, ok_bind]
  · simp [imports, decls]
    rfl
  case distinct => simp
  case fits => simp [Fields.role, imports, decls]

/-- Nothing is lost in the JSON form: as long as no real literal is infinite or undefined, what is written
reads back as it was, on its own and inside another node. Only the programs behind imports are left out. -/
theorem encode_reads_back :
    (∀ type : Ty, type.encode.draft.reading.type = .ok type) ∧
    (∀ entry : TypedName, entry.encode.draft.reading.typedName = .ok entry) ∧
    (∀ expr : Expr, (∀ part ∈ expr.parts, part.IsFinite) →
      expr.encode.draft.reading.expr = .ok expr ∧ expr.encode.draft.reading.outerExpr = .ok expr) ∧
    (∀ statement : Stmt, (∀ part ∈ statement.exprs, part.IsFinite) →
      statement.encode.draft.reading.stmt = .ok statement ∧
        statement.encode.draft.reading.outerStmt = .ok statement) ∧
    (∀ lines : List Stmt, (∀ part ∈ linesExprs lines, part.IsFinite) →
      (encodeScope lines).draft.reading.scope = .ok lines ∧
        (encodeScope lines).draft.reading.outerScope = .ok lines) ∧
    (∀ declaration : Decl, (∀ part ∈ declaration.exprs, part.IsFinite) →
      declaration.encode.draft.reading.decl = .ok declaration) ∧
    (∀ entry : Import, entry.encode.draft.reading.importEntry = .ok { path := entry.path }) ∧
    ∀ program : Program, (∀ part ∈ program.exprs, part.IsFinite) →
      program.encode.draft.reading.program = .ok program.unresolved :=
  ⟨Ty.reading_encode, TypedName.reading_encode, Expr.reading_encode, Stmt.reading_encode,
    reading_encodeScope, Decl.reading_encode, Import.reading_encode, Program.reading_encode⟩

end TypedTree
