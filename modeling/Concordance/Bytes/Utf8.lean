import Concordance.Bytes

namespace Concordance.Utf8

/-- A character whose first bytes have been read: its code so far, the number of bytes that are
still due, and the range the next one must lie in. -/
structure Partial where
  code : Nat
  due : Nat
  least : UInt8
  greatest : UInt8

inductive Lead
  | char (c : Char)
  | more (p : Partial)
  | malformed

/-- The ranges shut out overlong forms, surrogates and codes past U+10FFFF. -/
def lead (b : UInt8) : Lead :=
  let n := b.toNat
  if n < 0x80 then .char (Char.ofNat n)
  else if n < 0xC2 then .malformed
  else if n < 0xE0 then .more ⟨n % 32, 1, 0x80, 0xBF⟩
  else if n < 0xF0 then
    .more ⟨n % 16, 2, if n = 0xE0 then 0xA0 else 0x80, if n = 0xED then 0x9F else 0xBF⟩
  else if n < 0xF5 then
    .more ⟨n % 8, 3, if n = 0xF0 then 0x90 else 0x80, if n = 0xF4 then 0x8F else 0xBF⟩
  else .malformed

def scanFrom : Option Partial → Bytes → List (Option Char)
  | none, [] => []
  | some _, [] => [none]
  | none, b :: rest =>
      match lead b with
      | .char c => some c :: scanFrom none rest
      | .more p => scanFrom (some p) rest
      | .malformed => none :: scanFrom none rest
  | some p, b :: rest =>
      if p.least ≤ b ∧ b ≤ p.greatest then
        let code := p.code * 64 + b.toNat % 64
        if p.due = 1 then some (Char.ofNat code) :: scanFrom none rest
        else scanFrom (some ⟨code, p.due - 1, 0x80, 0xBF⟩) rest
      else
        none :: match lead b with
          | .char c => some c :: scanFrom none rest
          | .more q => scanFrom (some q) rest
          | .malformed => none :: scanFrom none rest

/-- The longest piece that could have begun a character counts as one fault, and each other byte of
a malformed stretch as one of its own. -/
def scan (b : Bytes) : List (Option Char) := scanFrom none b

def decode? (b : Bytes) : Option String := ((scan b).mapM id).map String.ofList

def lossy (b : Bytes) : String := String.ofList ((scan b).map (·.getD '\uFFFD'))

end Concordance.Utf8
