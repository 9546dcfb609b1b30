import Concordance.BlockStore.Table
import Concordance.Positioned.Writer

namespace Concordance.BlockStore

structure Summary where
  records : Nat
  bytes : Nat
  deriving DecidableEq

/-- Records go out as they come, and only their hashes and positions are kept for the tables that
follow them. The references at the front are written last. -/
structure Builder where
  out : Positioned.Writer
  /-- The slots of the records so far, the newest first. -/
  entries : List Slot
  records : Nat

namespace Builder

def empty : Builder := ⟨Positioned.Writer.empty.writeZeros headerSize, [], 0⟩

def length32 (part : RecordPart) (b : Bytes) : Except FormatFault UInt32 :=
  if b.length < UInt32.size then .ok (UInt32.ofNat b.length) else .error (.partTooLong part b.length)

def add (s : Builder) (r : Record) : Except FormatFault Builder := do
  let keyLength ← length32 .key r.key
  let valueLength ← length32 .value r.value
  let position ← s.out.offset
  return ⟨((s.out.writePair keyLength valueLength).write r.key).write r.value,
    ⟨KeyHash.hash r.key, position⟩ :: s.entries, s.records + 1⟩

def bucket (s : Builder) (i : Nat) : List Slot :=
  (s.entries.filter fun e => bucketOf e.hash = i).reverse

def writeSlots (w : Positioned.Writer) (slots : Array Slot) : Positioned.Writer :=
  slots.foldl (fun w e => w.writePair e.hash e.position) w

/-- Write the tables one behind the other. The result holds their references in the same order. -/
def writeTables (w : Positioned.Writer) :
    List (Array Slot) → Except FormatFault (Positioned.Writer × List (UInt32 × UInt32))
  | [] => return (w, [])
  | table :: rest => do
      let start ← w.offset
      let (w, refs) ← writeTables (writeSlots w table) rest
      return (w, (start, UInt32.ofNat table.size) :: refs)

/-- Complete the store. Its end has to be addressable too. -/
def finish (s : Builder) : Except FormatFault (Positioned.Writer × Summary) := do
  let tables := (List.range bucketCount).map fun i => Table.build (s.bucket i)
  let (w, refs) ← writeTables s.out tables
  let stop := w.position
  let _ ← w.offset
  let w := refs.foldl (fun w r => w.writePair r.1 r.2) (w.seek 0)
  return (w.seek stop, ⟨s.records, stop⟩)

end Builder

def make (records : List Record) : Except FormatFault (Bytes × Summary) := do
  let s ← records.foldlM Builder.add Builder.empty
  let (w, summary) ← s.finish
  return (w.bytes, summary)

end Concordance.BlockStore
