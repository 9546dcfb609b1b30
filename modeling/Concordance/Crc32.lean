import Concordance.Bytes

namespace Concordance.Crc32

/-- The generator of IEEE 802.3, reflected. -/
def polynomial : UInt32 := 0xEDB88320

def shift (r : UInt32) : UInt32 := if r &&& 1 = 1 then (r >>> 1) ^^^ polynomial else r >>> 1

def shifts : Nat → UInt32 → UInt32
  | 0, r => r
  | n + 1, r => shifts n (shift r)

def step (r : UInt32) (b : UInt8) : UInt32 := shifts 8 (r ^^^ b.toUInt32)

def checksum (b : Bytes) : UInt32 := (b.foldl step 0xFFFFFFFF) ^^^ 0xFFFFFFFF

end Concordance.Crc32
