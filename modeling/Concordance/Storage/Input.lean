import Concordance.Bytes.Window
import Concordance.FileSystem.Basic
import Concordance.Storage.Room
import Concordance.Storage.Seek

namespace Concordance

structure SnapshotInput where
  data : Packed
  position : Nat
  deriving DecidableEq

namespace SnapshotInput

def opened (data : Packed) : SnapshotInput := ⟨data, 0⟩

def read (n : Nat) (i : SnapshotInput) : Bytes × SnapshotInput :=
  let got := i.data.part i.position n
  (got, { i with position := i.position + got.length })

/-- Offsets have 64 bits, of which a relative target may not need more. -/
def seek (s : Seek) (i : SnapshotInput) : Except IoFault SnapshotInput :=
  match s.offset? i.data.size i.position with
  | some n => if n < UInt64.size then .ok { i with position := n } else .error .seekOutOfRange
  | none => .error .seekOutOfRange

def clone (i : SnapshotInput) : SnapshotInput := ⟨i.data, 0⟩

end SnapshotInput

/-- Blocks of a file are fetched and handed out from there. What the file holds has to be brought up
to date when the file changes. -/
structure BufferedInput where
  capacity : Nat
  content : Packed
  size : Nat
  /-- Where the next block is fetched. -/
  offset : Nat
  /-- What has been fetched and not handed out. -/
  ahead : Window
  deriving DecidableEq

namespace BufferedInput

def opened (capacity : Nat) (content : Packed) : BufferedInput :=
  ⟨capacity, content, content.size, 0, .empty⟩

def position (i : BufferedInput) : Nat := i.offset - i.ahead.length

def fetch (n : Nat) (i : BufferedInput) : Window × BufferedInput :=
  let got := Window.ofPart i.content i.offset n
  (got, { i with offset := i.offset + got.length })

/-- Hand out up to `n` of the bytes that have been fetched. If there are none, a block is fetched
first, unless as much as that is asked for. -/
def readOnce (n : Nat) (i : BufferedInput) : Bytes × BufferedInput :=
  if i.ahead.length = 0 ∧ i.capacity ≤ n then
    let (got, i) := i.fetch n
    (got.toBytes, i)
  else
    let (block, i) := if i.ahead.length = 0 then i.fetch i.capacity else (i.ahead, i)
    (block.take n, { i with ahead := block.drop n })

/-- Up to `n` bytes in portions that fit the room for them, fewer only at the end of the file. -/
def readInto (r : Room) (n : Nat) (i : BufferedInput) : Bytes × BufferedInput :=
  if n = 0 then ([], i)
  else
    let r := r.grow
    let (got, i) := i.readOnce (min r.portion n)
    if got = [] then ([], i)
    else
      let (more, i) := readInto (r.add got.length) (n - got.length) i
      (got ++ more, i)
termination_by n
decreasing_by
  rename_i hn _ hg
  have := List.length_pos_iff.2 hg
  omega

def seek (s : Seek) (i : BufferedInput) : Except IoFault BufferedInput :=
  match s.offset? i.content.size i.position with
  | some n => .ok { i with offset := n, ahead := .empty }
  | none => .error .seekBeforeStart

def clone (i : BufferedInput) : BufferedInput := opened i.capacity i.content

end BufferedInput

structure MappedInput where
  content : Packed
  size : Nat
  position : Nat
  deriving DecidableEq

namespace MappedInput

def opened (content : Packed) : MappedInput := ⟨content, content.size, 0⟩

/-- Up to `n` bytes. Where the file has become shorter there are zeros. -/
def read (n : Nat) (i : MappedInput) : Bytes × MappedInput :=
  let n := min n (i.size - i.position)
  ((i.content.part i.position n).extendTo n, { i with position := i.position + n })

def seek (s : Seek) (i : MappedInput) : Except IoFault MappedInput :=
  match s.offset? i.size i.position with
  | some n => .ok { i with position := n }
  | none => .error .seekBeforeStart

def clone (i : MappedInput) : MappedInput := { i with position := 0 }

end MappedInput

/-- An input knows by its number which file it reads. A directory can be opened like a file. -/
inductive Input
  | snapshot (i : SnapshotInput)
  | buffered (node : Node) (i : BufferedInput)
  | mapped (file : Nat) (i : MappedInput)
  deriving DecidableEq

namespace Input

def ofBytes (b : Bytes) : Input := .snapshot (.opened (.ofBytes b))

def size : Input → Nat
  | .snapshot i => i.data.size
  | .buffered _ i => i.size
  | .mapped _ i => i.size

def position : Input → Nat
  | .snapshot i => i.position
  | .buffered _ i => i.position
  | .mapped _ i => i.position

def clone : Input → Input
  | .snapshot i => .snapshot i.clone
  | .buffered node i => .buffered node i.clone
  | .mapped k i => .mapped k i.clone

def readInto (r : Room) (n : Nat) : Input → Except Error Bytes × Input
  | .snapshot i => let (b, i) := i.read n; (.ok b, .snapshot i)
  | .buffered (.file k) i => let (b, i) := i.readInto r n; (.ok b, .buffered (.file k) i)
  | .buffered .directory i =>
      (if n = 0 then .ok [] else .error (.io (.system .isDirectory)), .buffered .directory i)
  | .mapped k i => let (b, i) := i.read n; (.ok b, .mapped k i)

def read (n : Nat) (i : Input) : Except Error Bytes × Input := i.readInto .unknown n

/-- Exactly `n` bytes. The cursor moves even if there are not as many. -/
def readExact (n : Nat) (i : Input) : Except Error Bytes × Input :=
  match i.readInto (.ofSize n) n with
  | (.ok b, i) => (if b.length = n then .ok b else .error (.io .shortRead), i)
  | (.error e, i) => (.error e, i)

def seek (goal : Seek) (i : Input) : Except Error Input :=
  let moved : Except IoFault Input :=
    match i with
    | .snapshot i => .snapshot <$> i.seek goal
    | .buffered node i => .buffered node <$> i.seek goal
    | .mapped k i => .mapped k <$> i.seek goal
  moved.mapError .io

def refresh (content : Nat → Packed) : Input → Input
  | .buffered (.file k) i => .buffered (.file k) { i with content := content k }
  | .mapped k i => .mapped k { i with content := content k }
  | i => i

end Input

end Concordance
