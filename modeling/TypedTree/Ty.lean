/-! Types as they are written in a program tree: a name, possibly an array of it, and the parameter
types when the type belongs to a callable declaration. -/

namespace TypedTree

/-- A named type. With `params` it is the type of a function, and `name` and `isArray` describe
what the function returns. -/
structure Ty where
  name : String
  isArray : Bool := false
  params : Option (List Ty) := none

namespace Ty

mutual

def decEq : (left right : Ty) → Decidable (left = right)
  | ⟨leftName, leftArray, leftParams⟩, ⟨rightName, rightArray, rightParams⟩ =>
    if names : leftName = rightName then
      if arrays : leftArray = rightArray then
        match decEqParams leftParams rightParams with
        | isTrue params => isTrue (by rw [names, arrays, params])
        | isFalse params => isFalse (fun same => params (Ty.mk.inj same).2.2)
      else isFalse (fun same => arrays (Ty.mk.inj same).2.1)
    else isFalse (fun same => names (Ty.mk.inj same).1)

def decEqParams : (left right : Option (List Ty)) → Decidable (left = right)
  | none, none => isTrue rfl
  | none, some _ => isFalse (fun same => nomatch same)
  | some _, none => isFalse (fun same => nomatch same)
  | some left, some right =>
    match decEqList left right with
    | isTrue same => isTrue (by rw [same])
    | isFalse different => isFalse (fun same => different (Option.some.inj same))

def decEqList : (left right : List Ty) → Decidable (left = right)
  | [], [] => isTrue rfl
  | [], _ :: _ => isFalse (fun same => nomatch same)
  | _ :: _, [] => isFalse (fun same => nomatch same)
  | left :: lefts, right :: rights =>
    match decEq left right with
    | isFalse different => isFalse (fun same => different (List.cons.inj same).1)
    | isTrue head =>
      match decEqList lefts rights with
      | isFalse different => isFalse (fun same => different (List.cons.inj same).2)
      | isTrue tail => isTrue (by rw [head, tail])

end

instance : DecidableEq Ty := decEq

def scalar (name : String) : Ty := { name }

def array (name : String) : Ty := { name, isArray := true }

def function (returns : Ty) (params : List Ty) : Ty := { returns with params := some params }

def void : Ty := scalar "void"

def bool : Ty := scalar "bool"

def string : Ty := scalar "string"

def int32 : Ty := scalar "int32"

/-- The type of real literals, which is no builtin one. -/
def real64 : Ty := scalar "real64"

def builtinNames : List String :=
  ["void", "bool", "string", "int8", "int16", "int32", "uint8", "uint16", "uint32"]

def indexerNames : List String := ["int8", "int16", "int32", "uint8", "uint16", "uint32"]

/-- Types agree when name and array-ness are the same; parameter lists are never compared. -/
def agrees (left right : Ty) : Bool := left.name == right.name && left.isArray == right.isArray

def element (ty : Ty) : Ty := scalar ty.name

def isFunction (ty : Ty) : Bool := ty.params.isSome

def isIndexer (ty : Ty) : Bool := !ty.isArray && indexerNames.contains ty.name

def render (ty : Ty) : String := ty.name ++ (if ty.isArray then "[]" else "")

theorem agrees_iff (left right : Ty) :
    left.agrees right = true ↔ left.name = right.name ∧ left.isArray = right.isArray := by
  simp [agrees]

theorem agrees_comm (left right : Ty) : left.agrees right = right.agrees left := by
  rw [Bool.eq_iff_iff, agrees_iff, agrees_iff, eq_comm, @eq_comm _ left.isArray]

end Ty

structure TypedName where
  name : String
  type : Ty
deriving DecidableEq

end TypedTree
