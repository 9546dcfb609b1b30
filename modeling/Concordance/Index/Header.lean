import Concordance.Bytes.LittleEndian
import Concordance.Crc32
import Concordance.Error

namespace Concordance.Index

/-- The lengths of the two stores, how much they hold, and the fingerprint of the analyzer that they
were built with. -/
structure Header where
  fingerprint : UInt32
  documentStoreLength : UInt64
  wordStoreLength : UInt64
  documentCount : UInt64
  wordCount : UInt64
  deriving DecidableEq

namespace Header

def size : Nat := 4096

def magic : Bytes := [0x46, 0x4F, 0x4C, 0x49, 0x4F, 0x49, 0x44, 0x58]

def version : UInt32 := 1

variable (h : Header)

def documentStoreOffset : Nat := size

def wordStoreOffset : Nat := size + h.documentStoreLength.toNat

def fileLength : Nat := size + h.documentStoreLength.toNat + h.wordStoreLength.toNat

def payload : Bytes :=
  magic ++ LittleEndian.u32 version ++ LittleEndian.u32 h.fingerprint ++
    LittleEndian.u64 h.documentStoreLength ++ LittleEndian.u64 h.wordStoreLength ++
    LittleEndian.u64 h.documentCount ++ LittleEndian.u64 h.wordCount

def sealed : Bytes := h.payload ++ LittleEndian.u32 (Crc32.checksum h.payload)

def encode : Bytes := h.sealed ++ List.replicate (size - 52) 0

theorem length_payload : h.payload.length = 48 := by simp [payload, magic]

theorem length_sealed : h.sealed.length = 52 := by simp [sealed, length_payload]

theorem length_encode : h.encode.length = size := by
  rw [encode, List.length_append, length_sealed, List.length_replicate]
  rfl

def u32At (b : Bytes) (offset : Nat) : UInt32 := LittleEndian.toU32 (b.slice offset 4)

def u64At (b : Bytes) (offset : Nat) : UInt64 := LittleEndian.toU64 (b.slice offset 8)

/-- The header at the front of a file. Length, magic, version and checksum are tested in this
order. -/
def decode (b : Bytes) : Except FormatFault Header := do
  if b.length < size then throw (.headerTruncated b.length)
  if b.take 8 ≠ magic then throw .headerMagic
  if u32At b 8 ≠ version then throw (.headerVersion (u32At b 8))
  if u32At b 48 ≠ Crc32.checksum (b.take 48) then throw .headerChecksum
  return ⟨u32At b 12, u64At b 16, u64At b 24, u64At b 32, u64At b 40⟩

end Header

end Concordance.Index
