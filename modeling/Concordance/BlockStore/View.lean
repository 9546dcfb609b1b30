import Concordance.BlockStore.Layout
import Concordance.Positioned.Reader

namespace Concordance.BlockStore

open Positioned (Reader Reading)

structure TableRef where
  start : Nat
  slots : Nat
  deriving DecidableEq

def TableRef.stop (t : TableRef) : Nat := t.start + t.slots * slotSize

/-- A search under way: the slot to read next, and how many have been read. -/
structure Lookup where
  key : Bytes
  hash : UInt32
  table : TableRef
  slot : Nat
  probes : Nat
  deriving DecidableEq

/-- The store may lie anywhere in a file: every position in it counts from the base of the view. -/
structure View where
  reader : Reader
  base : Nat
  length : Nat
  tables : List TableRef
  lookup : Option Lookup

/-- An action on a view that may fail. What a failed action did to the view stays. -/
abbrev Viewing (α : Type) := EStateM Error View α

structure Stats where
  records : Nat
  bytes : Nat
  usedBuckets : Nat
  longestTable : Nat
  deriving DecidableEq

namespace View

/-- The references of the buckets from `bucket` on. Each table must lie between the header and the
end of the store. -/
def readTables (length : Nat) : Nat → Nat → Reading (List TableRef)
  | _, 0 => return []
  | bucket, n + 1 => do
      let (start, slots) ← Reader.pair
      let t : TableRef := ⟨start.toNat, slots.toNat⟩
      if t.start < headerSize ∨ length < t.stop then
        throw (.format (.tableOutside bucket t.start t.stop))
      let rest ← readTables length (bucket + 1) n
      return t :: rest

def ofInput (i : Input) (base length : Nat) : Except Error View := do
  if length < headerSize then throw (.format (.storeTruncated length))
  match (do Reader.seek base; readTables length 0 bucketCount : Reading _)
      (.ofInput (← i.seek (.start 0))) with
  | .ok tables reader => return ⟨reader, base, length, tables, none⟩
  | .error e _ => throw e

def openAt (file : Bytes) (base length : Nat) : Except Error View :=
  ofInput (.ofBytes file) base length

def ofBytes (file : Bytes) : Except Error View := openAt file 0 file.length

variable (v : View)

def tableOf (hash : UInt32) : TableRef := v.tables.getD (bucketOf hash) ⟨headerSize, 0⟩

/-- The records end where the first table begins. -/
def dataEnd : Nat := (v.tables.headD ⟨headerSize, 0⟩).start

def isEmpty : Bool := v.dataEnd = headerSize

def refresh (content : Nat → Packed) : View :=
  { v with reader := { v.reader with input := v.reader.input.refresh content } }

def onReader {α : Type} (m : Reading α) : Viewing α := fun v =>
  match m v.reader with
  | .ok a r => .ok a { v with reader := r }
  | .error e r => .error e { v with reader := r }

def seek (pos : Nat) : Viewing Unit := do
  onReader (Reader.seek ((← get).base + pos))

/-- The lengths of the key and the value of a record, which must lie within the data section. -/
def recordLengths (pos : Nat) : Viewing (Nat × Nat) := do
  let dataEnd := (← get).dataEnd
  if pos < headerSize ∨ dataEnd < pos + lengthsSize then
    throw (.format (.recordOutside pos))
  seek pos
  let (key, value) ← onReader Reader.pair
  if dataEnd < pos + lengthsSize + key.toNat + value.toNat then
    throw (.format (.recordTruncated pos))
  return (key.toNat, value.toNat)

/-- Whether the bytes ahead are those of the key. They are compared 64 at a time. -/
def matchesAhead (key : Bytes) : Viewing Bool :=
  if key = [] then return true
  else do
    let stored ← onReader (Reader.take (min key.length 64))
    if stored = key.take 64 then matchesAhead (key.drop 64) else return false
termination_by key.length
decreasing_by
  rename_i h _
  have := List.length_pos_iff.2 h
  simp
  omega

def holdsKey (pos : Nat) (key : Bytes) : Viewing Bool := do
  seek (pos + lengthsSize)
  matchesAhead key

end View

def Lookup.advance (c : Lookup) : Lookup :=
  { c with
    probes := c.probes + 1
    slot := if c.slot + slotSize = c.table.stop then c.table.start else c.slot + slotSize }

namespace View

/-- Search at most the given number of slots. The result tells where the search stands, and where
the value found lies and how long it is. An empty slot ends the search for good. -/
def search : Nat → Lookup → Viewing (Lookup × Option (Nat × Nat))
  | 0, c => return (c, none)
  | n + 1, c => do
      seek c.slot
      let (hash, pos) ← onReader Reader.pair
      if pos = 0 then return ({ c with probes := c.table.slots }, none)
      if hash = c.hash then
        let (key, value) ← recordLengths pos.toNat
        if key = c.key.length then
          if ← holdsKey pos.toNat c.key then
            return (c.advance, some (pos.toNat + lengthsSize + key, value))
      search n c.advance

def findStart (v : View) (key : Bytes) : View :=
  let hash := KeyHash.hash key
  let t := v.tableOf hash
  let slot := if t.slots = 0 then t.start else t.start + firstSlot hash t.slots * slotSize
  { v with lookup := some ⟨key, hash, t, slot, 0⟩ }

/-- The next value of the key searched for. A search that fails is over. -/
def findNext : Viewing (Option Bytes) := do
  match (← get).lookup with
  | none => return none
  | some c =>
      modify fun v => { v with lookup := none }
      let (c, found) ← search (c.table.slots - c.probes) c
      modify fun v => { v with lookup := some c }
      match found with
      | none => return none
      | some (pos, length) =>
          seek pos
          return some (← onReader (Reader.take length))

def find (key : Bytes) : Viewing (Option Bytes) := do
  modify (findStart · key)
  findNext

def findRest : Nat → Viewing (List Bytes)
  | 0 => return []
  | n + 1 => do
      match ← findNext with
      | none => return []
      | some value => return value :: (← findRest n)

def findAll (key : Bytes) : Viewing (List Bytes) := do
  modify (findStart · key)
  findRest (((← get).tableOf (KeyHash.hash key)).slots + 1)

def recordAt (pos : Nat) : Viewing Record := do
  if UInt32.size ≤ pos then throw (.format .recordUnaddressable)
  let (key, value) ← recordLengths pos
  return ⟨← onReader (Reader.take key), ← onReader (Reader.take value)⟩

/-- The records from a position on, at most `n` of them. A record that cannot be read ends the
list. -/
def scan (v : View) : Nat → Nat → List (Except Error Record) × View
  | 0, _ => ([], v)
  | n + 1, pos =>
      if v.dataEnd ≤ pos then ([], v)
      else
        match recordAt pos v with
        | .ok r v =>
            let (rest, v) := scan v n (pos + lengthsSize + r.key.length + r.value.length)
            (.ok r :: rest, v)
        | .error e v => ([.error e], v)

def records (v : View) (n : Nat) : List (Except Error Record) × View := v.scan n headerSize

def allRecords (v : View) : List (Except Error Record) × View := v.records v.dataEnd

def stats : Viewing Stats := fun v =>
  let (found, after) := v.allRecords
  match found.mapM id with
  | .ok rs =>
      .ok ⟨rs.length, v.length, v.tables.countP (0 < ·.slots),
        v.tables.foldl (fun n t => max n t.slots) 0⟩ after
  | .error e => .error e after

end View

end Concordance.BlockStore
