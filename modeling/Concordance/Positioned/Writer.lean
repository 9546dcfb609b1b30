import Concordance.Bytes.LittleEndian
import Concordance.Error

namespace Concordance.Positioned

structure Writer where
  data : Array UInt8
  position : Nat

namespace Writer

def empty : Writer := ⟨#[], 0⟩

def bytes (w : Writer) : Bytes := w.data.toList

def store (data : Array UInt8) (pos : Nat) : Bytes → Array UInt8
  | [] => data
  | b :: rest => store (if h : pos < data.size then data.set pos b h else data.push b) (pos + 1) rest

theorem toList_store (b : Bytes) : ∀ (data : Array UInt8) (pos : Nat), pos ≤ data.size →
    (store data pos b).toList = data.toList.take pos ++ b ++ data.toList.drop (pos + b.length) := by
  induction b with
  | nil => intro data pos _; simp [store]
  | cons x b ih =>
    intro data pos h
    rw [store]
    split
    · rename_i hlt
      rw [ih _ _ (by simp; omega)]
      simp only [Array.toList_set, List.length_cons]
      have hl : pos < data.toList.length := by simpa using hlt
      rw [List.take_set, List.drop_set_of_lt (by omega), List.take_succ_eq_append_getElem hl,
        List.set_append_right _ _ (by rw [List.length_take]; omega)]
      have hmin : min pos data.size = pos := by omega
      simp [hmin, Nat.add_assoc, Nat.add_comm 1 b.length]
    · have hp : pos = data.size := by omega
      rw [ih _ _ (by simp; omega)]
      subst hp
      simp [List.drop_eq_nil_of_le, List.take_of_length_le]

/-- Write bytes at the position. A gap behind the end is filled with zeros even if nothing is
written. -/
def write (w : Writer) (b : Bytes) : Writer :=
  ⟨store (w.data ++ Array.replicate (w.position - w.data.size) 0) w.position b,
    w.position + b.length⟩

theorem position_write (w : Writer) (b : Bytes) : (w.write b).position = w.position + b.length := rfl

theorem bytes_write (w : Writer) (b : Bytes) :
    (w.write b).bytes = (w.bytes.extendTo w.position).overwrite w.position b := by
  rw [write, Bytes.overwrite]
  simp only [bytes]
  rw [toList_store _ _ _ (by simp; omega)]
  cases b with
  | nil => simp [Bytes.extendTo]
  | cons x b =>
    have h : w.position - w.data.size + (w.position - (w.data.size + (w.position - w.data.size))) =
        w.position - w.data.size := by omega
    simp [Bytes.extendTo, h]

def writeU32 (w : Writer) (n : UInt32) : Writer := w.write (LittleEndian.u32 n)

def writeU64 (w : Writer) (n : UInt64) : Writer := w.write (LittleEndian.u64 n)

def writePair (w : Writer) (m n : UInt32) : Writer := (w.writeU32 m).writeU32 n

def writeZeros (w : Writer) (n : Nat) : Writer := if n = 0 then w else w.write (List.replicate n 0)

def seek (w : Writer) (pos : Nat) : Writer := { w with position := pos }

def offset (w : Writer) : Except FormatFault UInt32 :=
  if w.position < UInt32.size then .ok (UInt32.ofNat w.position)
  else .error (.offsetTooLarge w.position)

end Writer

end Concordance.Positioned
