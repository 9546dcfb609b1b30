import Concordance.KeyHash

namespace Concordance.BlockStore

structure Record where
  key : Bytes
  value : Bytes
  deriving DecidableEq

def bucketCount : Nat := 256

def slotSize : Nat := 8

def headerSize : Nat := bucketCount * slotSize

def lengthsSize : Nat := 8

def bucketOf (hash : UInt32) : Nat := hash.toNat % bucketCount

/-- The slot at which the search for a hash begins, where one cannot divide by 0. -/
def startSlot (hash slots : UInt32) : UInt32 := hash / UInt32.ofNat bucketCount % slots

/-- The same in a table of any number of slots, which is cut to 32 bits. -/
def firstSlot (hash : UInt32) (n : Nat) : Nat := (startSlot hash (UInt32.ofNat n)).toNat

theorem firstSlot_lt (hash : UInt32) {n : Nat} (h : UInt32.ofNat n ≠ 0) : firstSlot hash n < n := by
  have hpos : 0 < (UInt32.ofNat n).toNat :=
    Nat.pos_of_ne_zero fun hzero => h (UInt32.toNat_inj.mp hzero)
  have hlt : firstSlot hash n < (UInt32.ofNat n).toNat := by
    rw [firstSlot, startSlot, UInt32.toNat_mod]
    exact Nat.mod_lt _ hpos
  have hle : (UInt32.ofNat n).toNat ≤ n := by
    rw [UInt32.toNat_ofNat']
    exact Nat.mod_le _ _
  exact Nat.lt_of_lt_of_le hlt hle

theorem firstSlot_mod (hash : UInt32) {n : Nat} (h : UInt32.ofNat n ≠ 0) :
    firstSlot hash n % n = firstSlot hash n :=
  Nat.mod_eq_of_lt (firstSlot_lt hash h)

theorem ofNat_ne_zero {n : Nat} (hpos : 0 < n) (h : n < UInt32.size) : UInt32.ofNat n ≠ 0 := by
  intro hzero
  have := congrArg UInt32.toNat hzero
  rw [UInt32.toNat_ofNat_of_lt' h, UInt32.toNat_zero] at this
  omega

/-- A slot is empty if its position is 0, which lies in the header and is no record's. -/
structure Slot where
  hash : UInt32
  position : UInt32
  deriving DecidableEq

def Slot.empty : Slot := ⟨0, 0⟩

end Concordance.BlockStore
