import Concordance.Json.Number

namespace Concordance.JsonValue

def isBlankChar (c : Char) : Bool := c = ' ' || c = '\n' || c = '\t' || c = '\r'

def skipBlanks (s : List Char) : List Char := s.dropWhile isBlankChar

def hexDigit? (c : Char) : Option Nat :=
  if c.isDigit then some (c.toNat - '0'.toNat)
  else if 'a' ≤ c ∧ c ≤ 'f' then some (c.toNat - 'a'.toNat + 10)
  else if 'A' ≤ c ∧ c ≤ 'F' then some (c.toNat - 'A'.toNat + 10)
  else none

def hexCode : List Char → Option (Nat × List Char)
  | a :: b :: c :: d :: rest => do
      let a ← hexDigit? a
      let b ← hexDigit? b
      let c ← hexDigit? c
      let d ← hexDigit? d
      return (((a * 16 + b) * 16 + c) * 16 + d, rest)
  | _ => none

/-- The characters of a string up to its closing quote, `none` for half of a surrogate pair. -/
def stringChars : Nat → List Char → Option (List (Option Char) × List Char)
  | 0, _ => none
  | n + 1, s =>
      let more (c : Option Char) (s : List Char) : Option (List (Option Char) × List Char) := do
        let (cs, s) ← stringChars n s
        return (c :: cs, s)
      match s with
      | '"' :: s => some ([], s)
      | '\\' :: 'u' :: s => do
          let (code, s) ← hexCode s
          if 0xD800 ≤ code ∧ code < 0xDC00 then
            match s with
            | '\\' :: 'u' :: low => do
                let (next, rest) ← hexCode low
                if 0xDC00 ≤ next ∧ next < 0xE000 then
                  more (some (Char.ofNat (0x10000 + (code - 0xD800) * 0x400 + (next - 0xDC00)))) rest
                else more none s
            | s => more none s
          else if 0xDC00 ≤ code ∧ code < 0xE000 then more none s
          else more (some (Char.ofNat code)) s
      | '\\' :: c :: s =>
          match c with
          | '"' => more (some '"') s
          | '\\' => more (some '\\') s
          | '/' => more (some '/') s
          | 'b' => more (some '\x08') s
          | 'f' => more (some '\x0C') s
          | 'n' => more (some '\n') s
          | 'r' => more (some '\r') s
          | 't' => more (some '\t') s
          | _ => none
      | c :: s => if c.toNat < 0x20 then none else more (some c) s
      | [] => none

def stringText (n : Nat) (s : List Char) : Option (Option String × List Char) := do
  let (cs, s) ← stringChars n s
  return ((cs.mapM id).map String.ofList, s)

def word (w : String) (v : JsonValue) (s : List Char) : Option (JsonValue × List Char) :=
  if w.toList.isPrefixOf s then some (v, s.drop w.length) else none

mutual

def value : Nat → List Char → Option (JsonValue × List Char)
  | 0, _ => none
  | n + 1, s =>
      match s with
      | 'n' :: _ => word "null" .null s
      | 't' :: _ => word "true" (.bool true) s
      | 'f' :: _ => word "false" (.bool false) s
      | '"' :: s => do
          let (text, s) ← stringText n s
          return (text.elim .brokenString .string, s)
      | '[' :: s =>
          match skipBlanks s with
          | ']' :: s => some (.array [], s)
          | s => do
              let (items, s) ← items n s
              return (.array items, s)
      | '\x7b' :: s =>
          match skipBlanks s with
          | '\x7d' :: s => some (.object [], s)
          | s => do
              let (members, s) ← members n s
              return (.object members, s)
      | s => number s

def items : Nat → List Char → Option (List JsonValue × List Char)
  | 0, _ => none
  | n + 1, s => do
      let (v, s) ← value n s
      match skipBlanks s with
      | ',' :: s =>
          let (vs, s) ← items n (skipBlanks s)
          return (v :: vs, s)
      | ']' :: s => return ([v], s)
      | _ => none

def members : Nat → List Char → Option (List (Option String × JsonValue) × List Char)
  | 0, _ => none
  | n + 1, s =>
      match s with
      | '"' :: s => do
          let (key, s) ← stringText n s
          match skipBlanks s with
          | ':' :: s =>
              let (v, s) ← value n (skipBlanks s)
              match skipBlanks s with
              | ',' :: s =>
                  let (ms, s) ← members n (skipBlanks s)
                  return ((key, v) :: ms, s)
              | '\x7d' :: s => return ([(key, v)], s)
              | _ => none
          | _ => none
      | _ => none

end

def parse? (s : String) : Option JsonValue :=
  let cs := skipBlanks s.toList
  match value (2 * cs.length + 2) cs with
  | some (v, rest) => if skipBlanks rest = [] then some v else none
  | none => none

end Concordance.JsonValue
