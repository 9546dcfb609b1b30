namespace Concordance

/-- Values of JSON documents. Numbers that are not natural are told apart only by whether double
precision holds them, and a string may name half of a surrogate pair, which no text can hold. -/
inductive JsonValue
  | null
  | bool (b : Bool)
  | natural (n : Nat)
  | otherNumber
  | hugeNumber
  | string (s : String)
  | brokenString
  | array (items : List JsonValue)
  | object (members : List (Option String × JsonValue))
  deriving Inhabited

namespace JsonValue

mutual

/-- Whether every string in a value is a text and every number has its double precision. -/
def isSound : JsonValue → Bool
  | .brokenString | .hugeNumber => false
  | .array items => allSound items
  | .object members => allMembersSound members
  | _ => true

def allSound : List JsonValue → Bool
  | [] => true
  | v :: vs => v.isSound && allSound vs

def allMembersSound : List (Option String × JsonValue) → Bool
  | [] => true
  | (k, v) :: ms => k.isSome && v.isSound && allMembersSound ms

end

mutual

def depth : JsonValue → Nat
  | .array items => depthOfItems items + 1
  | .object members => depthOfMembers members + 1
  | _ => 0

def depthOfItems : List JsonValue → Nat
  | [] => 0
  | v :: vs => max v.depth (depthOfItems vs)

def depthOfMembers : List (Option String × JsonValue) → Nat
  | [] => 0
  | (_, v) :: ms => max v.depth (depthOfMembers ms)

end

def ofMembers (ms : List (String × JsonValue)) : JsonValue :=
  .object (ms.map fun (k, v) => (some k, v))

end JsonValue

end Concordance
