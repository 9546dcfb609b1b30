import Concordance.Bytes.Packed

namespace Concordance

structure Window where
  data : Packed
  start : Nat
  stop : Nat
  stop_le : stop ≤ data.size
  deriving DecidableEq

namespace Window

def empty : Window := ⟨.empty, 0, 0, Nat.le_refl 0⟩

def ofPart (p : Packed) (start n : Nat) : Window := ⟨p, start, min (start + n) p.size, by omega⟩

variable (w : Window)

def length : Nat := w.stop - w.start

def toBytes : Bytes := w.data.part w.start w.length

def take (n : Nat) : Bytes := w.data.part w.start (min n w.length)

def drop (n : Nat) : Window := { w with start := w.start + n }

theorem length_toBytes : w.toBytes.length = w.length := by
  have := w.stop_le
  have h : (Packed.toBytes w.data).length = w.data.size := rfl
  rw [toBytes, Packed.part_eq_slice, Bytes.slice, List.length_take, List.length_drop, length]
  omega

theorem toBytes_ofPart (p : Packed) (start n : Nat) :
    (ofPart p start n).toBytes = p.part start n := by
  have h : (Packed.toBytes p).length = p.size := rfl
  rw [toBytes, Packed.part_eq_slice, Packed.part_eq_slice, Bytes.slice, Bytes.slice]
  simp only [ofPart, length]
  rw [List.take_eq_take_iff, List.length_drop]
  omega

theorem take_eq (n : Nat) : w.take n = w.toBytes.take n := by
  rw [take, toBytes, Packed.part_eq_slice, Packed.part_eq_slice, Bytes.slice, Bytes.slice,
    List.take_take]

theorem toBytes_drop (n : Nat) : (w.drop n).toBytes = w.toBytes.drop n := by
  rw [toBytes, toBytes, Packed.part_eq_slice, Packed.part_eq_slice, Bytes.slice, Bytes.slice,
    List.drop_take, List.drop_drop]
  simp only [drop, length]
  congr 1
  omega

end Window

end Concordance
