import Mathlib.Algebra.BigOperators.Group.Finset.Basic
import Mathlib.Algebra.BigOperators.Group.Finset.Piecewise
import Mathlib.Algebra.BigOperators.Ring.Finset
import Mathlib.Algebra.Order.BigOperators.Group.List
import Concordance.BlockStore.Builder
import Concordance.BlockStore.View
import Concordance.Proofs.Cursors

namespace Concordance.Proofs.StoreImage

open BlockStore Positioned Cursors Outcomes

def recordImage (r : Record) : Bytes :=
  LittleEndian.u32 (UInt32.ofNat r.key.length) ++ LittleEndian.u32 (UInt32.ofNat r.value.length) ++
    r.key ++ r.value

def recordSize (r : Record) : Nat := lengthsSize + r.key.length + r.value.length

def dataSize (rs : List Record) : Nat := (rs.map recordSize).sum

def placedFrom : Nat → List Record → List (Nat × Record)
  | _, [] => []
  | pos, r :: rs => (pos, r) :: placedFrom (pos + recordSize r) rs

def placed (rs : List Record) : List (Nat × Record) := placedFrom headerSize rs

def slotOf (pr : Nat × Record) : Slot := ⟨KeyHash.hash pr.2.key, UInt32.ofNat pr.1⟩

def entries (rs : List Record) : List Slot := (placed rs).map slotOf

def table (rs : List Record) (bucket : Nat) : Array Slot :=
  Table.build ((entries rs).filter fun e => bucketOf e.hash = bucket)

def tables (rs : List Record) : List (Array Slot) := (List.range bucketCount).map (table rs)

def slotImage (s : Slot) : Bytes := LittleEndian.u32 s.hash ++ LittleEndian.u32 s.position

def tableImage (t : Array Slot) : Bytes := t.toList.flatMap slotImage

def refsFrom : Nat → List (Array Slot) → List TableRef
  | _, [] => []
  | pos, t :: ts => ⟨pos, t.size⟩ :: refsFrom (pos + t.size * slotSize) ts

def refs (rs : List Record) : List TableRef := refsFrom (headerSize + dataSize rs) (tables rs)

def refImage (t : TableRef) : Bytes :=
  LittleEndian.u32 (UInt32.ofNat t.start) ++ LittleEndian.u32 (UInt32.ofNat t.slots)

def image (rs : List Record) : Bytes :=
  (refs rs).flatMap refImage ++ (rs.flatMap recordImage ++ (tables rs).flatMap tableImage)

/-- The length of the file: each record has two slots. -/
def size (rs : List Record) : Nat := headerSize + dataSize rs + rs.length * (2 * slotSize)

theorem length_recordImage (r : Record) : (recordImage r).length = recordSize r := by
  simp [recordImage, recordSize, lengthsSize]
  omega

theorem length_flatMap_recordImage (rs : List Record) :
    (rs.flatMap recordImage).length = dataSize rs := by
  simp [List.length_flatMap, dataSize, length_recordImage]

theorem dataSize_append (rs rs' : List Record) :
    dataSize (rs ++ rs') = dataSize rs + dataSize rs' := by
  simp [dataSize]

theorem length_tableImage (t : Array Slot) : (tableImage t).length = t.size * slotSize := by
  simp [tableImage, List.length_flatMap, slotImage, slotSize]

theorem length_refsFrom (pos : Nat) (ts : List (Array Slot)) :
    (refsFrom pos ts).length = ts.length := by
  induction ts generalizing pos with
  | nil => rfl
  | cons t ts ih => simp [refsFrom, ih]

theorem length_flatMap_refImage (ts : List TableRef) :
    (ts.flatMap refImage).length = ts.length * slotSize := by
  simp [List.length_flatMap, refImage, slotSize]

theorem length_refs (rs : List Record) : (refs rs).length = bucketCount := by
  simp [refs, tables, length_refsFrom]

theorem placedFrom_append (pos : Nat) (rs rs' : List Record) :
    placedFrom pos (rs ++ rs') = placedFrom pos rs ++ placedFrom (pos + dataSize rs) rs' := by
  induction rs generalizing pos with
  | nil => simp [placedFrom, dataSize]
  | cons r rs ih => simp [placedFrom, dataSize, ih, Nat.add_assoc]

theorem length_placedFrom (pos : Nat) (rs : List Record) :
    (placedFrom pos rs).length = rs.length := by
  induction rs generalizing pos with
  | nil => rfl
  | cons r rs ih => simp [placedFrom, ih]

theorem map_snd_placedFrom (pos : Nat) (rs : List Record) : (placedFrom pos rs).map (·.2) = rs := by
  induction rs generalizing pos with
  | nil => rfl
  | cons r rs ih => simp [placedFrom, ih]

theorem mem_placedFrom {pos : Nat} {rs : List Record} {pr : Nat × Record}
    (h : pr ∈ placedFrom pos rs) :
    ∃ before behind, rs = before ++ pr.2 :: behind ∧ pr.1 = pos + dataSize before := by
  induction rs generalizing pos with
  | nil => simp [placedFrom] at h
  | cons r rs ih =>
      rcases List.mem_cons.mp h with rfl | h
      · exact ⟨[], rs, rfl, by simp [dataSize]⟩
      · obtain ⟨before, behind, hrs, hpos⟩ := ih h
        refine ⟨r :: before, behind, by rw [hrs]; rfl, ?_⟩
        rw [hpos]
        simp [dataSize, Nat.add_assoc]

/-- Each element falls into one class, so that the classes together have all of them. -/
theorem sum_length_filter {α : Type} (f : α → Nat) (n : Nat) (l : List α) (hf : ∀ x ∈ l, f x < n) :
    ∑ i ∈ Finset.range n, (l.filter fun x => f x = i).length = l.length := by
  induction l with
  | nil => simp
  | cons x l ih =>
      have hx : f x < n := hf x (by simp)
      have hcons (i : Nat) : ((x :: l).filter fun x => f x = i).length =
          (if f x = i then 1 else 0) + (l.filter fun x => f x = i).length := by
        by_cases h : f x = i <;> simp [h, Nat.add_comm]
      simp only [hcons, Finset.sum_add_distrib, Finset.sum_ite_eq, Finset.mem_range, hx, if_true]
      rw [ih fun y hy => hf y (by simp [hy]), List.length_cons, Nat.add_comm]

theorem sum_tables (rs : List Record) : ((tables rs).map Array.size).sum = 2 * rs.length := by
  have hsum : ((tables rs).map Array.size).sum = ∑ i ∈ Finset.range bucketCount,
      2 * ((entries rs).filter fun e => bucketOf e.hash = i).length := by
    simp only [tables, List.map_map, Function.comp_def, table, Table.size_build]
    rfl
  have hlt : ∀ e ∈ entries rs, bucketOf e.hash < bucketCount :=
    fun e _ => Nat.mod_lt _ (by decide)
  have hall := sum_length_filter (fun e => bucketOf e.hash) bucketCount (entries rs) hlt
  rw [hsum, ← Finset.mul_sum, hall]
  simp [entries, placed, length_placedFrom]

theorem length_flatMap_tableImage (ts : List (Array Slot)) :
    (ts.flatMap tableImage).length = (ts.map Array.size).sum * slotSize := by
  induction ts with
  | nil => rfl
  | cons t ts ih => simp [ih, length_tableImage, Nat.add_mul]

theorem length_image (rs : List Record) : (image rs).length = size rs := by
  simp only [image, List.length_append, length_flatMap_refImage, length_refs,
    length_flatMap_recordImage, length_flatMap_tableImage, sum_tables, size, headerSize, slotSize]
  omega

theorem bytes_seek (w : Writer) (pos : Nat) : (w.seek pos).bytes = w.bytes := rfl

def AtEnd (w : Writer) : Prop := w.position = w.bytes.length

theorem write_atEnd {w : Writer} (h : AtEnd w) (b : Bytes) :
    (w.write b).bytes = w.bytes ++ b ∧ AtEnd (w.write b) := by
  have hw : (w.write b).bytes = w.bytes ++ b := by
    rw [Writer.bytes_write, h, Bytes.extendTo, Nat.sub_self, List.replicate_zero, List.append_nil,
      Bytes.overwrite_end]
  refine ⟨hw, ?_⟩
  rw [AtEnd, hw, Writer.position_write, h, List.length_append]

theorem writePair_atEnd {w : Writer} (h : AtEnd w) (m n : UInt32) :
    (w.writePair m n).bytes = w.bytes ++ (LittleEndian.u32 m ++ LittleEndian.u32 n) ∧
      AtEnd (w.writePair m n) := by
  obtain ⟨hm, hm'⟩ := write_atEnd h (LittleEndian.u32 m)
  obtain ⟨hn, hn'⟩ := write_atEnd hm' (LittleEndian.u32 n)
  refine ⟨?_, hn'⟩
  rw [Writer.writePair, Writer.writeU32, Writer.writeU32, hn, hm, List.append_assoc]

theorem offset_of_lt {w : Writer} (h : w.position < UInt32.size) :
    w.offset = .ok (UInt32.ofNat w.position) := by
  rw [Writer.offset, if_pos h]

theorem offset_of_le {w : Writer} (h : UInt32.size ≤ w.position) :
    w.offset = .error (.offsetTooLarge w.position) := by
  rw [Writer.offset, if_neg (by omega)]

structure Built (b : Builder) (rs : List Record) : Prop where
  atEnd : AtEnd b.out
  bytes : b.out.bytes = List.replicate headerSize 0 ++ rs.flatMap recordImage
  entries : b.entries = (entries rs).reverse
  records : b.records = rs.length

theorem Built.position {b : Builder} {rs : List Record} (h : Built b rs) :
    b.out.position = headerSize + dataSize rs := by
  rw [h.atEnd, h.bytes, List.length_append, List.length_replicate, length_flatMap_recordImage]

theorem built_empty : Built Builder.empty [] := by
  obtain ⟨hb, ha⟩ := write_atEnd (w := Writer.empty) rfl (List.replicate headerSize 0)
  have hout : Builder.empty.out = Writer.empty.write (List.replicate headerSize 0) := by
    rw [Builder.empty, Writer.writeZeros, if_neg (by decide)]
  refine ⟨?_, ?_, rfl, rfl⟩
  · rw [hout]
    exact ha
  · have hnil : Writer.empty.bytes = [] := rfl
    rw [hout, hb, hnil, List.flatMap_nil, List.append_nil, List.nil_append]

theorem add_spec {b : Builder} {rs : List Record} (h : Built b rs) (r : Record) :
    (∃ b', b.add r = .ok b' ∧ Built b' (rs ++ [r])) ∨
      (UInt32.size ≤ headerSize + dataSize (rs ++ [r]) ∧ ∃ e, b.add r = .error e) := by
  have hpos := h.position
  have hsize : dataSize (rs ++ [r]) =
      dataSize rs + (lengthsSize + r.key.length + r.value.length) := by
    rw [dataSize_append]
    simp [dataSize, recordSize]
  by_cases hk : r.key.length < UInt32.size
  · by_cases hv : r.value.length < UInt32.size
    · by_cases hp : b.out.position < UInt32.size
      · left
        obtain ⟨h₁, a₁⟩ := writePair_atEnd h.atEnd (UInt32.ofNat r.key.length)
          (UInt32.ofNat r.value.length)
        obtain ⟨h₂, a₂⟩ := write_atEnd a₁ r.key
        obtain ⟨h₃, a₃⟩ := write_atEnd a₂ r.value
        refine ⟨_, by
          simp only [Builder.add, Builder.length32, hk, hv, if_true, offset_of_lt hp, ok_bind]
          rfl,
          a₃, ?_, ?_, ?_⟩
        · rw [h₃, h₂, h₁, h.bytes, List.flatMap_append, List.flatMap_singleton, recordImage]
          simp only [List.append_assoc]
        · simp only [h.entries, StoreImage.entries, placed, placedFrom_append, List.map_append,
            List.reverse_append, hpos]
          rfl
        · rw [h.records, List.length_append]
          rfl
      · right
        refine ⟨by omega, .offsetTooLarge b.out.position, ?_⟩
        simp only [Builder.add, Builder.length32, hk, hv, if_true,
          offset_of_le (Nat.le_of_not_lt hp), ok_bind, error_bind]
    · right
      refine ⟨by omega, .partTooLong .value r.value.length, ?_⟩
      simp only [Builder.add, Builder.length32, hk, hv, if_true, if_false, ok_bind, error_bind]
  · right
    refine ⟨by omega, .partTooLong .key r.key.length, ?_⟩
    simp only [Builder.add, Builder.length32, hk, if_false, error_bind]

theorem foldlM_add_spec {b : Builder} {rs : List Record} (h : Built b rs) (new : List Record) :
    (∃ b', new.foldlM Builder.add b = .ok b' ∧ Built b' (rs ++ new)) ∨
      (UInt32.size ≤ headerSize + dataSize (rs ++ new) ∧
        ∃ e, new.foldlM Builder.add b = .error e) := by
  induction new generalizing b rs with
  | nil => exact .inl ⟨b, rfl, by simpa using h⟩
  | cons r new ih =>
      rw [List.foldlM_cons]
      rcases add_spec h r with ⟨b', hb, hbuilt⟩ | ⟨hlarge, e, he⟩
      · rw [hb, ok_bind]
        simpa using ih hbuilt
      · right
        refine ⟨?_, e, by rw [he, error_bind]⟩
        rw [dataSize_append] at hlarge ⊢
        simp only [dataSize, List.map_cons, List.map_nil, List.sum_cons, List.sum_nil] at hlarge ⊢
        omega

theorem bucket_eq {b : Builder} {rs : List Record} (h : Built b rs) (i : Nat) :
    Table.build (b.bucket i) = table rs i := by
  rw [Builder.bucket, h.entries, List.filter_reverse, List.reverse_reverse, table]

theorem writeSlots_atEnd {w : Writer} (h : AtEnd w) (t : Array Slot) :
    (Builder.writeSlots w t).bytes = w.bytes ++ tableImage t ∧ AtEnd (Builder.writeSlots w t) := by
  rw [Builder.writeSlots, ← Array.foldl_toList, tableImage]
  induction t.toList generalizing w with
  | nil => exact ⟨by simp, h⟩
  | cons s ss ih =>
      obtain ⟨hb, ha⟩ := writePair_atEnd h s.hash s.position
      obtain ⟨hb', ha'⟩ := ih ha
      rw [List.foldl_cons]
      refine ⟨?_, ha'⟩
      rw [hb', hb, List.flatMap_cons, slotImage, List.append_assoc]

theorem writeTables_spec {w : Writer} (h : AtEnd w) (ts : List (Array Slot)) :
    (∃ w', Builder.writeTables w ts = .ok (w', (refsFrom w.position ts).map fun t =>
        (UInt32.ofNat t.start, UInt32.ofNat t.slots)) ∧
        w'.bytes = w.bytes ++ ts.flatMap tableImage ∧ AtEnd w') ∨
      (UInt32.size ≤ w.position + (ts.flatMap tableImage).length ∧
        ∃ e, Builder.writeTables w ts = .error e) := by
  induction ts generalizing w with
  | nil =>
      refine .inl ⟨w, ?_, by simp, h⟩
      simp only [Builder.writeTables, refsFrom, List.map_nil]
      rfl
  | cons t ts ih =>
      by_cases hp : w.position < UInt32.size
      · obtain ⟨hb, ha⟩ := writeSlots_atEnd h t
        have hpos : (Builder.writeSlots w t).position = w.position + t.size * slotSize := by
          rw [ha, hb, List.length_append, length_tableImage, h]
        rcases ih ha with ⟨w', hw, hbytes, hend⟩ | ⟨hlarge, e, he⟩
        · refine .inl ⟨w', ?_, ?_, hend⟩
          · simp only [Builder.writeTables, offset_of_lt hp, hw, hpos, ok_bind]
            rfl
          · rw [hbytes, hb, List.flatMap_cons, List.append_assoc]
        · refine .inr ⟨?_, e, ?_⟩
          · rw [List.flatMap_cons, List.length_append, length_tableImage]
            omega
          · simp only [Builder.writeTables, offset_of_lt hp, he, ok_bind, error_bind]
      · refine .inr ⟨by omega, .offsetTooLarge w.position, ?_⟩
        simp only [Builder.writeTables, offset_of_le (Nat.le_of_not_lt hp), error_bind]

theorem write_inside {w : Writer} {b : Bytes} (h : w.position + b.length ≤ w.bytes.length) :
    (w.write b).bytes = w.bytes.take w.position ++ b ++ w.bytes.drop (w.position + b.length) := by
  rw [Writer.bytes_write, Bytes.extendTo, Nat.sub_eq_zero_of_le (by omega), List.replicate_zero,
    List.append_nil, Bytes.overwrite]
  split
  · rename_i hnil
    simp [hnil]
  · rw [Bytes.extendTo, Nat.sub_eq_zero_of_le (by omega), List.replicate_zero, List.append_nil]

theorem writePair_front {w : Writer} {front old behind : Bytes}
    (hb : w.bytes = front ++ (old ++ behind))
    (hp : w.position = front.length) (ho : old.length = slotSize) (m n : UInt32) :
    (w.writePair m n).bytes = (front ++ (LittleEndian.u32 m ++ LittleEndian.u32 n)) ++ behind ∧
      (w.writePair m n).position = front.length + slotSize := by
  have ho' : old.length = 8 := ho
  have h₁ : (w.write (LittleEndian.u32 m)).bytes =
      front ++ LittleEndian.u32 m ++ (old.drop 4 ++ behind) := by
    rw [write_inside (by simp [hb, hp]; omega), hb, hp, List.take_left, List.drop_append,
      List.drop_eq_nil_of_le (by simp), List.drop_append_of_le_length (by simp; omega)]
    simp
  refine ⟨?_, by simp [Writer.writePair, Writer.writeU32, Writer.position_write, hp, slotSize]⟩
  have hp' : (w.write (LittleEndian.u32 m)).position = (front ++ LittleEndian.u32 m).length := by
    simp [Writer.position_write, hp]
  rw [Writer.writePair, Writer.writeU32, Writer.writeU32,
    write_inside (by rw [hp', h₁]; simp; omega), hp', h₁, List.take_left, List.drop_append,
    List.drop_eq_nil_of_le (by simp)]
  have hrest : (old.drop 4 ++ behind).drop 4 = behind := by
    rw [← List.drop_append_of_le_length (by omega), List.drop_drop,
      show 4 + 4 = old.length from ho'.symm, List.drop_left]
  simp [hrest]

theorem writeRefs (ts : List TableRef) {w : Writer} {front old behind : Bytes}
    (hb : w.bytes = front ++ (old ++ behind)) (hp : w.position = front.length)
    (ho : old.length = ts.length * slotSize) :
    ((ts.map fun t => (UInt32.ofNat t.start, UInt32.ofNat t.slots)).foldl
      (fun w r => w.writePair r.1 r.2) w).bytes = front ++ ts.flatMap refImage ++ behind := by
  induction ts generalizing w front old with
  | nil =>
      have : old = [] := List.eq_nil_of_length_eq_zero (by simpa using ho)
      simpa [this] using hb
  | cons t ts ih =>
      have hlen : old.length = slotSize + ts.length * slotSize := by
        rw [ho, List.length_cons, Nat.add_mul, Nat.one_mul, Nat.add_comm]
      have hsplit : w.bytes = front ++ (old.take slotSize ++ (old.drop slotSize ++ behind)) := by
        rw [hb, ← List.append_assoc (old.take slotSize), List.take_append_drop]
      obtain ⟨hb', hp'⟩ := writePair_front hsplit hp (by simp; omega) (UInt32.ofNat t.start)
        (UInt32.ofNat t.slots)
      have hnext := ih hb' (by simp [hp', slotSize]) (by simp; omega)
      rw [List.map_cons, List.foldl_cons, hnext, List.flatMap_cons, refImage]
      simp only [List.append_assoc]

theorem finish_spec {b : Builder} {rs : List Record} (h : Built b rs) :
    (size rs < UInt32.size ∧ ∃ w, b.finish = .ok (w, ⟨rs.length, size rs⟩) ∧ w.bytes = image rs) ∨
      (UInt32.size ≤ size rs ∧ ∃ e, b.finish = .error e) := by
  have htables : ((List.range bucketCount).map fun i => Table.build (b.bucket i)) = tables rs := by
    simp only [bucket_eq h]
    rfl
  have hlen : headerSize + dataSize rs + ((tables rs).flatMap tableImage).length = size rs := by
    rw [length_flatMap_tableImage, sum_tables, size]
    simp only [slotSize]
    omega
  rcases writeTables_spec h.atEnd (tables rs) with ⟨w, hw, hbytes, hend⟩ | ⟨hlarge, e, he⟩
  · have hpos : w.position = size rs := by
      rw [hend, hbytes, List.length_append, ← h.atEnd, h.position, hlen]
    by_cases hs : size rs < UInt32.size
    · have hoff := offset_of_lt (hpos ▸ hs)
      refine .inl ⟨hs, (((refs rs).map fun t => (UInt32.ofNat t.start, UInt32.ofNat t.slots)).foldl
        (fun w r => w.writePair r.1 r.2) (w.seek 0)).seek (size rs), ?_, ?_⟩
      · simp only [Builder.finish, htables, hw, hoff, hpos, h.records, h.position, ok_bind]
        rfl
      · have hb : (w.seek 0).bytes = [] ++ (List.replicate headerSize 0 ++
            (rs.flatMap recordImage ++ (tables rs).flatMap tableImage)) := by
          rw [bytes_seek, hbytes, h.bytes, List.nil_append, List.append_assoc]
        have hr := writeRefs (refs rs) hb rfl (by rw [length_refs]; simp [headerSize])
        rw [bytes_seek, hr, image, List.nil_append]
    · have hoff := offset_of_le (w := w) (by omega)
      refine .inr ⟨by omega, .offsetTooLarge w.position, ?_⟩
      simp only [Builder.finish, htables, hw, hoff, ok_bind, error_bind]
  · refine .inr ⟨?_, e, ?_⟩
    · rw [h.position, hlen] at hlarge
      exact hlarge
    · simp only [Builder.finish, htables, he, error_bind]

theorem make_of_lt {rs : List Record} (h : size rs < UInt32.size) :
    make rs = .ok (image rs, ⟨rs.length, size rs⟩) := by
  rcases foldlM_add_spec built_empty rs with ⟨b, hb, hbuilt⟩ | ⟨hlarge, -⟩
  · rcases finish_spec hbuilt with ⟨-, w, hw, himage⟩ | ⟨hlarge, -⟩
    · simp only [make, hb]
      change (b.finish >>= _) = _
      rw [hw]
      simp only [List.nil_append] at himage
      exact congrArg (fun x => Except.ok (x, _)) himage
    · exact absurd hlarge (by simpa using h)
  · simp only [List.nil_append] at hlarge
    simp only [size] at h
    omega

theorem size_lt_of_make {rs : List Record} {out : Bytes × Summary} (h : make rs = .ok out) :
    size rs < UInt32.size := by
  rcases foldlM_add_spec built_empty rs with ⟨b, hb, hbuilt⟩ | ⟨-, e, he⟩
  · rcases finish_spec hbuilt with ⟨hs, -⟩ | ⟨-, e, he⟩
    · simpa using hs
    · simp only [make, hb, he, ok_bind, error_bind] at h
      cases h
  · simp only [make, he, error_bind] at h
    cases h

theorem make_eq_ok_iff (rs : List Record) (out : Bytes × Summary) :
    make rs = .ok out ↔ size rs < UInt32.size ∧ out = (image rs, ⟨rs.length, size rs⟩) := by
  constructor
  · intro h
    have hs := size_lt_of_make h
    rw [make_of_lt hs, Except.ok.injEq] at h
    exact ⟨hs, h.symm⟩
  · rintro ⟨hs, rfl⟩
    exact make_of_lt hs

end Concordance.Proofs.StoreImage
