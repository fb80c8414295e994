/-! JSON values, and what a reader makes of a text that may not be JSON at all. -/

namespace TypedTree

inductive Json where
  | null
  | bool (value : Bool)
  | int (value : Int)
  | real (value : Float)
  | text (value : String)
  | list (items : List Json)
  | object (fields : List (String × Json))

namespace Json

inductive Fault where
  | malformed
  | unfinished
  | shape
deriving DecidableEq

/-- A place a reader cannot get past: what it reports, and what a reader reports that passes over the
value without looking at it, if that one is stopped as well. -/
structure Break where
  reading : Fault
  passing : Option Fault
deriving DecidableEq

/-- A value as far as a reader can follow it. Nothing of the text behind a break is kept unless the
value around it can be passed over. -/
inductive Draft where
  | null
  | bool (value : Bool)
  | int (value : Int)
  | real (value : Float)
  | text (value : String)
  | list (items : List Draft) (ending : Option Break)
  | object (fields : List (String × Draft)) (ending : Option Break)
  | broken (stop : Break)

mutual

def draft : Json → Draft
  | null => .null
  | bool value => .bool value
  | int value => .int value
  | real value => .real value
  | text value => .text value
  | list items => .list (draftItems items) none
  | object fields => .object (draftFields fields) none

def draftItems : List Json → List Draft
  | [] => []
  | item :: items => item.draft :: draftItems items

def draftFields : List (String × Json) → List (String × Draft)
  | [] => []
  | (key, value) :: fields => (key, value.draft) :: draftFields fields

end

def field? (value : Json) (name : String) : Option Json :=
  match value with
  | object fields => (fields.reverse.find? fun field => field.1 = name).map Prod.snd
  | _ => none

end Json

namespace Json.Draft

mutual

def passing : Draft → Option Fault
  | .null | .bool _ | .int _ | .real _ | .text _ => none
  | .list items ending => (passingItems items).or (ending.bind Break.passing)
  | .object fields ending => (passingFields fields).or (ending.bind Break.passing)
  | .broken stop => stop.passing

def passingItems : List Draft → Option Fault
  | [] => none
  | item :: items => item.passing.or (passingItems items)

def passingFields : List (String × Draft) → Option Fault
  | [] => none
  | (_, value) :: fields => value.passing.or (passingFields fields)

end

mutual

def complete : Draft → Except Fault Json
  | .null => .ok .null
  | .bool value => .ok (.bool value)
  | .int value => .ok (.int value)
  | .real value => .ok (.real value)
  | .text value => .ok (.text value)
  | .list items ending => do
    let items ← completeItems items
    match ending with
    | some stop => .error stop.reading
    | none => .ok (.list items)
  | .object fields ending => do
    let fields ← completeFields fields
    match ending with
    | some stop => .error stop.reading
    | none => .ok (.object fields)
  | .broken stop => .error stop.reading

def completeItems : List Draft → Except Fault (List Json)
  | [] => .ok []
  | item :: items => do
    let item ← item.complete
    return item :: (← completeItems items)

def completeFields : List (String × Draft) → Except Fault (List (String × Json))
  | [] => .ok []
  | (key, value) :: fields => do
    let value ← value.complete
    return (key, value) :: (← completeFields fields)

end

end Json.Draft

end TypedTree
