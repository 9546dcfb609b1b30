import Concordance.Json.Value

namespace Concordance.JsonValue

def hexDigit (n : Nat) : Char := (Nat.digitChar n)

def escapeChar (c : Char) : List Char :=
  if c = '"' then ['\\', '"']
  else if c = '\\' then ['\\', '\\']
  else if c = '\x08' then ['\\', 'b']
  else if c = '\t' then ['\\', 't']
  else if c = '\n' then ['\\', 'n']
  else if c = '\x0C' then ['\\', 'f']
  else if c = '\r' then ['\\', 'r']
  else if c.toNat < 0x20 then
    ['\\', 'u', '0', '0', hexDigit (c.toNat / 16), hexDigit (c.toNat % 16)]
  else [c]

def renderString (s : String) : String :=
  String.ofList (['"'] ++ s.toList.flatMap escapeChar ++ ['"'])

structure Style where
  lineBreak : Nat → String
  colon : String

def compact : Style := ⟨fun _ => "", ":"⟩

def indented : Style := ⟨fun depth => String.ofList ('\n' :: List.replicate (2 * depth) ' '), ": "⟩

mutual

def renderAt (style : Style) (depth : Nat) : JsonValue → String
  | .null | .otherNumber | .hugeNumber | .brokenString => "null"
  | .bool b => if b then "true" else "false"
  | .natural n => toString n
  | .string s => renderString s
  | .array [] => "[]"
  | .array (v :: vs) =>
      "[" ++ style.lineBreak (depth + 1) ++ renderAt style (depth + 1) v ++
        renderItems style (depth + 1) vs ++ style.lineBreak depth ++ "]"
  | .object [] => "\x7b\x7d"
  | .object (m :: ms) =>
      "\x7b" ++ renderMember style (depth + 1) m ++ renderMembers style (depth + 1) ms ++
        style.lineBreak depth ++ "\x7d"

def renderItems (style : Style) (depth : Nat) : List JsonValue → String
  | [] => ""
  | v :: vs => "," ++ style.lineBreak depth ++ renderAt style depth v ++ renderItems style depth vs

def renderMember (style : Style) (depth : Nat) : Option String × JsonValue → String
  | (k, v) =>
      style.lineBreak depth ++ renderString (k.getD "") ++ style.colon ++ renderAt style depth v

def renderMembers (style : Style) (depth : Nat) : List (Option String × JsonValue) → String
  | [] => ""
  | m :: ms => "," ++ renderMember style depth m ++ renderMembers style depth ms

end

def render (style : Style) (v : JsonValue) : String := renderAt style 0 v

end Concordance.JsonValue
