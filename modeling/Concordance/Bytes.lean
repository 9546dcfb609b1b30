namespace Concordance

abbrev Bytes := List UInt8

namespace Bytes

/-- The `n` bytes from offset `start`, or as many of them as there are. -/
def slice (b : Bytes) (start n : Nat) : Bytes := (b.drop start).take n

def extendTo (n : Nat) (b : Bytes) : Bytes := b ++ List.replicate (n - b.length) 0

/-- Put `new` at offset `start`, over what was there. A gap behind the end is filled with zeros,
and putting nothing changes nothing. -/
def overwrite (b : Bytes) (start : Nat) (new : Bytes) : Bytes :=
  if new = [] then b
  else (b.extendTo start).take start ++ new ++ b.drop (start + new.length)

theorem overwrite_nil (b : Bytes) (start : Nat) : overwrite b start [] = b := if_pos rfl

theorem overwrite_end (b new : Bytes) : overwrite b b.length new = b ++ new := by
  by_cases h : new = [] <;> simp [overwrite, extendTo, h, List.drop_eq_nil_of_le]

theorem length_overwrite (b new : Bytes) (start : Nat) (h : new ≠ []) :
    (overwrite b start new).length = max b.length (start + new.length) := by
  simp [overwrite, extendTo, h]
  omega

theorem getElem?_overwrite (b : Bytes) (start : Nat) {new : Bytes} (h : new ≠ []) (i : Nat) :
    (overwrite b start new)[i]? = if i < start then some (b[i]?.getD 0)
      else if i < start + new.length then new[i - start]? else b[i]? := by
  have hlength : ((b.extendTo start).take start).length = start := by
    rw [extendTo, List.length_take, List.length_append, List.length_replicate]
    omega
  rw [overwrite, if_neg h, List.append_assoc]
  by_cases hi : i < start
  · rw [if_pos hi, List.getElem?_append_left (by omega), List.getElem?_take_of_lt hi, extendTo,
      List.getElem?_append]
    by_cases hb : i < b.length
    · rw [if_pos hb, List.getElem?_eq_getElem hb, Option.getD_some]
    · rw [if_neg hb, List.getElem?_replicate_of_lt (by omega),
        List.getElem?_eq_none (Nat.le_of_not_lt hb), Option.getD_none]
  · rw [if_neg hi, List.getElem?_append_right (by omega), hlength, List.getElem?_append]
    by_cases hnew : i < start + new.length
    · rw [if_pos hnew, if_pos (by omega)]
    · rw [if_neg hnew, if_neg (by omega), List.getElem?_drop]
      congr 1
      omega

theorem overwrite_append (b : Bytes) (start : Nat) (x y : Bytes) :
    b.overwrite start (x ++ y) = (b.overwrite start x).overwrite (start + x.length) y := by
  by_cases hx : x = []
  · rw [hx, List.nil_append, overwrite_nil, List.length_nil, Nat.add_zero]
  by_cases hy : y = []
  · rw [hy, List.append_nil, overwrite_nil]
  have hpos : 0 < x.length := List.length_pos_iff.mpr hx
  apply List.ext_getElem?
  intro i
  rw [getElem?_overwrite _ _ (by simp [hx]), getElem?_overwrite _ _ hy, getElem?_overwrite _ _ hx,
    List.length_append, List.getElem?_append]
  by_cases hstart : i < start
  · rw [if_pos hstart, if_pos hstart, if_pos (by omega), Option.getD_some]
  rw [if_neg hstart, if_neg hstart]
  by_cases hfirst : i < start + x.length
  · rw [if_pos hfirst, if_pos hfirst, if_pos (by omega), if_pos (by omega),
      List.getElem?_eq_getElem (by omega), Option.getD_some]
  · rw [if_neg hfirst, if_neg hfirst, if_neg (by omega : ¬ i - start < x.length), Nat.sub_sub,
      Nat.add_assoc]

def ofString (s : String) : Bytes := s.toUTF8.data.toList

theorem ofString_injective {s t : String} (h : ofString s = ofString t) : s = t := by
  have : s.toUTF8.data = t.toUTF8.data := Array.toList_inj.1 h
  exact String.toByteArray_inj.1 (ByteArray.ext this)

end Bytes

end Concordance
