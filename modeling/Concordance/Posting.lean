import Concordance.Varint

namespace Concordance

structure Posting where
  id : Bytes
  count : UInt64
  deriving DecidableEq

namespace Posting

def encodeEntry (p : Posting) : Bytes :=
  Varint.encode (UInt64.ofNat p.id.length) ++ p.id ++ Varint.encode p.count

def encode (ps : List Posting) : Bytes :=
  Varint.encode (UInt64.ofNat ps.length) ++ ps.flatMap encodeEntry

def decodeEntry (b : Bytes) : Except FormatFault (Posting × Bytes) := do
  let (length, b) ← Varint.decode b
  let id := b.take length.toNat
  if id.length < length.toNat then throw .postingIdTruncated
  let (count, rest) ← Varint.decode (b.drop length.toNat)
  return (⟨id, count⟩, rest)

def decodeEntries : Nat → Bytes → Except FormatFault (List Posting × Bytes)
  | 0, b => .ok ([], b)
  | n + 1, b => do
      let (p, b) ← decodeEntry b
      let (ps, rest) ← decodeEntries n b
      return (p :: ps, rest)

def decodeExactly (n : Nat) (b : Bytes) : Except FormatFault (List Posting) := do
  let (ps, rest) ← decodeEntries n b
  if rest ≠ [] then throw (.postingTrailing rest.length)
  return ps

/-- A list that claims more entries than its bytes could hold is refused before any is read. -/
def decode (b : Bytes) : Except FormatFault (List Posting) := do
  let (count, rest) ← Varint.decode b
  if rest.length / 3 + 1 < count.toNat then throw (.postingCount count rest.length)
  decodeExactly count.toNat rest

end Posting

end Concordance
