import Concordance.Bytes.LittleEndian
import Concordance.Storage.Input

namespace Concordance.Positioned

/-- The account of the position tells where the cursor stands, and the cursor is moved only when the
account differs from the place asked for. A read that meets the end of the file takes the cursor
there and leaves the account as it was, so that the two can differ afterwards. -/
structure Reader where
  input : Input
  position : Nat

abbrev Reading (α : Type) := EStateM Error Reader α

namespace Reader

def ofInput (i : Input) : Reader := ⟨i, 0⟩

def ofBytes (b : Bytes) : Reader := ofInput (.ofBytes b)

def take (n : Nat) : Reading Bytes := fun r =>
  match r.input.readExact n with
  | (.ok b, i) => .ok b ⟨i, r.position + n⟩
  | (.error e, i) => .error e { r with input := i }

def seek (pos : Nat) : Reading Unit := fun r =>
  if pos = r.position then .ok () r
  else match r.input.seek (.start pos) with
    | .ok i => .ok () ⟨i, pos⟩
    | .error e => .error e r

def u32 : Reading UInt32 := LittleEndian.toU32 <$> take 4

def u64 : Reading UInt64 := LittleEndian.toU64 <$> take 8

/-- Two numbers of 32 bits. If only the first is there, it is accounted for. -/
def pair : Reading (UInt32 × UInt32) := do
  let m ← u32
  let n ← u32
  return (m, n)

end Reader

end Concordance.Positioned
