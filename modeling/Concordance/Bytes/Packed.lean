import Concordance.Bytes

namespace Concordance

abbrev Packed := ByteArray

instance : DecidableEq Packed := ByteArray.instDecidableEq

namespace Packed

def ofBytes (b : Bytes) : Packed := ⟨b.toArray⟩

def toBytes (p : Packed) : Bytes := p.data.toList

theorem toBytes_ofBytes (b : Bytes) : toBytes (ofBytes b) = b := by simp [ofBytes, toBytes]

theorem length_toBytes (p : Packed) : (toBytes p).length = p.size := rfl

def part (p : Packed) (start n : Nat) : Bytes :=
  toBytes (p.extract start (start + min n (p.size - start)))

theorem part_eq_slice (p : Packed) (start n : Nat) : part p start n = (toBytes p).slice start n := by
  simp only [part, toBytes, Bytes.slice, ByteArray.data_extract, Array.toList_extract,
    List.extract_eq_take_drop]
  have h : p.size = p.data.toList.length := rfl
  rw [h]
  generalize p.data.toList = l
  rw [List.take_eq_take_iff]
  simp

def extendTo (n : Nat) (p : Packed) : Packed := p ++ ⟨Array.replicate (n - p.size) 0⟩

theorem toBytes_extendTo (n : Nat) (p : Packed) :
    toBytes (extendTo n p) = (toBytes p).extendTo n := by
  simp [extendTo, toBytes, Bytes.extendTo, ByteArray.data_append]

def overwrite (p : Packed) (start : Nat) (new : Bytes) : Packed :=
  if new = [] then p
  else (ofBytes new).copySlice 0 (extendTo start p) start new.length false

theorem toBytes_overwrite (p : Packed) (start : Nat) (new : Bytes) :
    toBytes (overwrite p start new) = (toBytes p).overwrite start new := by
  by_cases h : new = []
  · simp [overwrite, Bytes.overwrite, h]
  · have hd : ((toBytes p).extendTo start).drop (start + new.length) =
        (toBytes p).drop (start + new.length) := by
      have hz : (List.replicate (start - (toBytes p).length) (0 : UInt8)).drop
          (start + new.length - (toBytes p).length) = [] :=
        List.drop_eq_nil_of_le (by simp; omega)
      rw [Bytes.extendTo, List.drop_append, hz, List.append_nil]
    simp only [overwrite, Bytes.overwrite, h, if_false]
    rw [← hd, ← toBytes_extendTo]
    simp only [toBytes, ofBytes, ByteArray.copySlice, Array.toList_append, Array.toList_extract,
      List.extract_eq_take_drop]
    congr 1
    · simp
    · rw [List.take_of_length_le (by simp)]
      simp

end Packed

end Concordance
