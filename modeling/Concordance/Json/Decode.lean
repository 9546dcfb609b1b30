import Concordance.Json.Reader

namespace Concordance.JsonValue

def bool? : JsonValue → Option Bool
  | .bool b => some b
  | _ => none

def natural? : JsonValue → Option Nat
  | .natural n => some n
  | _ => none

def string? : JsonValue → Option String
  | .string s => some s
  | _ => none

def strings? : JsonValue → Option (List String)
  | .array vs => vs.mapM string?
  | _ => none

def valuesOf (key : String) (ms : List (Option String × JsonValue)) : List JsonValue :=
  (ms.filter (·.1 = some key)).map (·.2)

/-- A record is an object, of which unknown members are passed over and known ones may not be
repeated, or an array of its fields in order, of which the last may be left out. -/
def fields? (names : List String) : JsonValue → Option (List (Option JsonValue))
  | .object ms =>
      if ms.all (·.1.isSome) then
        names.mapM fun name =>
          match valuesOf name ms with
          | [] => some none
          | [v] => some (some v)
          | _ => none
      else none
  | .array vs =>
      if vs.length ≤ names.length then
        some (vs.map some ++ List.replicate (names.length - vs.length) none)
      else none
  | _ => none

def required {α : Type} (read : JsonValue → Option α) : Option JsonValue → Option α
  | some v => read v
  | none => none

def optional {α : Type} (read : JsonValue → Option α) (absent : α) : Option JsonValue → Option α
  | some v => read v
  | none => some absent

/-- How deep the value of a record may be that tells its kind. -/
def depthLimit : Nat := 126

/-- Separate the member that tells the kind of a record, or the first item of an array, from the
rest, which is looked at as a whole before the kind is known. -/
def tagged? (tag : String) : JsonValue → Option (String × JsonValue)
  | .object ms =>
      if ms.all (·.1.isSome) ∧ (JsonValue.object ms).depth ≤ depthLimit then
        match valuesOf tag ms with
        | [.string kind] =>
            let rest : JsonValue := .object (ms.filter (·.1 ≠ some tag))
            if rest.isSound then some (kind, rest) else none
        | _ => none
      else none
  | .array (.string kind :: vs) =>
      let rest : JsonValue := .array vs
      if rest.isSound ∧ rest.depth ≤ depthLimit then some (kind, rest) else none
  | _ => none

end Concordance.JsonValue
