import Concordance.BlockStore.View
import Concordance.Proofs.StoreImage

namespace Concordance.Proofs.StoreReading

open BlockStore Positioned Cursors Outcomes StoreImage

theorem lies_refs (rs : List Record) : Lies (image rs) 0 ((refs rs).flatMap refImage) :=
  lies_append_left _ _

theorem headerSize_le_size (rs : List Record) : headerSize ≤ size rs := by
  simp only [size]
  omega

theorem lies_data (rs : List Record) : Lies (image rs) headerSize (rs.flatMap recordImage) := by
  have h := (lies_append_right ((refs rs).flatMap refImage)
    (rs.flatMap recordImage ++ (tables rs).flatMap tableImage)).left
  rwa [length_flatMap_refImage, length_refs] at h

theorem lies_tables (rs : List Record) :
    Lies (image rs) (headerSize + dataSize rs) ((tables rs).flatMap tableImage) := by
  have h := (lies_append_right ((refs rs).flatMap refImage)
    (rs.flatMap recordImage ++ (tables rs).flatMap tableImage)).right
  rwa [length_flatMap_refImage, length_refs, length_flatMap_recordImage] at h

theorem lies_record {rs : List Record} {pr : Nat × Record} (h : pr ∈ placed rs) :
    Lies (image rs) pr.1 (recordImage pr.2) := by
  obtain ⟨before, behind, hrs, hpos⟩ := mem_placedFrom h
  have hin : Lies (rs.flatMap recordImage) (dataSize before) (recordImage pr.2) := by
    have hl := (lies_append_right (before.flatMap recordImage)
      (recordImage pr.2 ++ behind.flatMap recordImage)).left
    rw [length_flatMap_recordImage] at hl
    rwa [hrs, List.flatMap_append, List.flatMap_cons]
  rw [hpos]
  exact (lies_data rs).trans hin

theorem getElem?_refsFrom (pos : Nat) {i : Nat} {ts : List (Array Slot)} {t : Array Slot}
    (h : ts[i]? = some t) :
    ∃ off, (refsFrom pos ts)[i]? = some ⟨pos + off, t.size⟩ ∧
      Lies (ts.flatMap tableImage) off (tableImage t) := by
  induction ts generalizing pos i with
  | nil => simp at h
  | cons u ts ih =>
      cases i with
      | zero =>
          obtain rfl : u = t := by simpa using h
          exact ⟨0, rfl, lies_append_left _ _⟩
      | succ i =>
          obtain ⟨off, href, hlies⟩ := ih (pos + u.size * slotSize) (by simpa using h)
          refine ⟨u.size * slotSize + off, ?_, ?_⟩
          · rw [refsFrom, List.getElem?_cons_succ, href, Nat.add_assoc]
          · have hl := (lies_append_right (tableImage u) (ts.flatMap tableImage)).trans hlies
            rwa [length_tableImage] at hl

def refOf (rs : List Record) (bucket : Nat) : TableRef :=
  (refs rs).getD bucket ⟨headerSize, 0⟩

theorem refOf_spec (rs : List Record) {bucket : Nat} (hb : bucket < bucketCount) :
    (refOf rs bucket).slots = (table rs bucket).size ∧
      headerSize + dataSize rs ≤ (refOf rs bucket).start ∧
      Lies (image rs) (refOf rs bucket).start (tableImage (table rs bucket)) := by
  have ht : (tables rs)[bucket]? = some (table rs bucket) := by
    simp [tables, List.getElem?_range hb]
  obtain ⟨off, href, hlies⟩ := getElem?_refsFrom (headerSize + dataSize rs) ht
  have hget : refOf rs bucket = ⟨headerSize + dataSize rs + off, (table rs bucket).size⟩ := by
    rw [refOf, List.getD_eq_getElem?_getD, refs, href, Option.getD_some]
  rw [hget]
  exact ⟨rfl, Nat.le_add_right _ _, (lies_tables rs).trans hlies⟩

theorem stop_le_size (rs : List Record) {bucket : Nat} (hb : bucket < bucketCount) :
    (refOf rs bucket).stop ≤ size rs := by
  obtain ⟨hslots, -, hlies⟩ := refOf_spec rs hb
  have h := hlies.le_length
  rw [length_tableImage, length_image] at h
  rw [TableRef.stop, hslots]
  exact h

theorem mem_refs {rs : List Record} {t : TableRef} (h : t ∈ refs rs) :
    headerSize ≤ t.start ∧ t.stop ≤ size rs := by
  obtain ⟨i, hi⟩ := List.mem_iff_getElem?.mp h
  have hb : i < bucketCount := by
    have hlt := (List.getElem?_eq_some_iff.mp hi).1
    rwa [length_refs] at hlt
  have hget : refOf rs i = t := by
    rw [refOf, List.getD_eq_getElem?_getD, hi, Option.getD_some]
  rw [← hget]
  exact ⟨(Nat.le_add_right _ _).trans (refOf_spec rs hb).2.1, stop_le_size rs hb⟩

theorem lies_slot {t : Array Slot} {i : Nat} (hi : i < t.size) :
    Lies (tableImage t) (i * slotSize) (slotImage t[i]) := by
  have hsplit : t.toList = t.toList.take i ++ t[i] :: t.toList.drop (i + 1) := by
    have hdrop := List.cons_getElem_drop_succ (l := t.toList) (h := by simpa using hi)
    rw [Array.getElem_toList] at hdrop
    rw [hdrop, List.take_append_drop]
  have hlen : ((t.toList.take i).flatMap slotImage).length = i * slotSize := by
    have hmin : min i t.size = i := by omega
    simp [List.length_flatMap, slotImage, slotSize, hmin]
  have hl := (lies_append_right ((t.toList.take i).flatMap slotImage)
    (slotImage t[i] ++ (t.toList.drop (i + 1)).flatMap slotImage)).left
  rw [hlen] at hl
  rwa [tableImage, hsplit, List.flatMap_append, List.flatMap_cons]

theorem start_headD_refs (rs : List Record) :
    ((refs rs).headD ⟨headerSize, 0⟩).start = headerSize + dataSize rs := by
  have hrange : List.range bucketCount = 0 :: (List.range 255).map Nat.succ :=
    List.range_succ_eq_map
  rw [refs, tables, hrange, List.map_cons, refsFrom, List.headD_cons]

variable {p : Tape} {rs : List Record} {v : View}

structure Shows (p : Tape) (rs : List Record) (v : View) : Prop where
  reader : ∃ pos, At p v.reader pos
  lies : Lies p.toBytes v.base (image rs)
  addressable : p.size < UInt64.size
  small : size rs < UInt32.size
  length : v.length = size rs
  tables : v.tables = refs rs

theorem Shows.dataEnd (h : Shows p rs v) : v.dataEnd = headerSize + dataSize rs := by
  rw [View.dataEnd, h.tables, start_headD_refs]

theorem Shows.seekable (h : Shows p rs v) {pos : Nat} (hpos : pos ≤ size rs) :
    v.base + pos < UInt64.size := by
  have hlen := h.lies.le_length
  rw [length_image] at hlen
  have hsize : p.toBytes.length = p.size := rfl
  have := h.addressable
  omega

theorem Shows.lookup (h : Shows p rs v) (c : Option Lookup) : Shows p rs { v with lookup := c } :=
  ⟨h.reader, h.lies, h.addressable, h.small, h.length, h.tables⟩

theorem readTables_spec (bucket : Nat) {length pos : Nat} {ts : List TableRef} {r : Reader}
    (hr : At p r pos) (hl : Lies p.toBytes pos (ts.flatMap refImage))
    (ht : ∀ t ∈ ts, headerSize ≤ t.start ∧ t.stop ≤ length) (hsmall : length < UInt32.size) :
    Gives (View.readTables length bucket ts.length) r ts (fun r => ∃ pos, At p r pos) := by
  induction ts generalizing bucket pos r with
  | nil => exact ⟨r, rfl, pos, hr⟩
  | cons t ts ih =>
      obtain ⟨hstart, hstop⟩ := ht t (by simp)
      have hs : t.start + t.slots * 8 ≤ length := hstop
      have hstart32 : (UInt32.ofNat t.start).toNat = t.start :=
        UInt32.toNat_ofNat_of_lt' (by omega)
      have hslots32 : (UInt32.ofNat t.slots).toNat = t.slots :=
        UInt32.toNat_ofNat_of_lt' (by omega)
      rw [List.flatMap_cons] at hl
      apply Gives.bind (hr.pair hl.left)
      intro r' hr'
      simp only [hstart32, hslots32]
      rw [if_neg (by rw [not_or, Nat.not_lt, Nat.not_lt]; exact ⟨hstart, hstop⟩)]
      have hnext : Lies p.toBytes (pos + 8) (ts.flatMap refImage) := hl.right
      apply Gives.bind (ih (bucket + 1) hr' hnext fun u hu => ht u (by simp [hu]))
      intro r'' hr''
      exact ⟨r'', rfl, hr''⟩

theorem ofInput_spec {i : Input} {base : Nat} (hi : Over p i) (hl : Lies p.toBytes base (image rs))
    (haddr : p.size < UInt64.size) (hsmall : size rs < UInt32.size) :
    ∃ v, View.ofInput i base (size rs) = .ok v ∧ Shows p rs v ∧ v.base = base ∧
      v.lookup = none := by
  have hlen := hl.le_length
  rw [length_image] at hlen
  have hsize : p.toBytes.length = p.size := rfl
  obtain ⟨j, hj, hover, hpos⟩ := hi.seek (n := 0) (by decide)
  have hat : At p (.ofInput j) 0 := ⟨hover, hpos, rfl⟩
  have hrefs : Lies p.toBytes base ((refs rs).flatMap refImage) := by
    have h := hl.trans (lies_refs rs)
    rwa [Nat.add_zero] at h
  have hread : Gives (do Reader.seek base; View.readTables (size rs) 0 bucketCount : Reading _)
      (.ofInput j) (refs rs) (fun r => ∃ pos, At p r pos) := by
    apply Gives.bind (hat.seek (by omega))
    intro r hr
    have h := readTables_spec 0 hr hrefs (fun t ht => mem_refs ht) hsmall
    rwa [length_refs] at h
  obtain ⟨r, hr, hr'⟩ := hread
  refine ⟨⟨r, base, size rs, refs rs, none⟩, ?_, ⟨hr', hl, haddr, hsmall, rfl, rfl⟩, rfl, rfl⟩
  rw [View.ofInput, if_neg (by have := headerSize_le_size rs; omega)]
  simp only [hj, ok_bind, hr]
  rfl

def Reread (v : View) (P : Reader → Prop) (w : View) : Prop := ∃ r, w = { v with reader := r } ∧ P r

abbrev Moved (p : Tape) (v w : View) : Prop := Reread v (fun r => ∃ pos, At p r pos) w

theorem Moved.shows {w : View} (h : Shows p rs v) (hw : Moved p v w) : Shows p rs w := by
  obtain ⟨r, rfl, hr⟩ := hw
  exact ⟨hr, h.lies, h.addressable, h.small, h.length, h.tables⟩

theorem Reread.moved {pos : Nat} {w : View} (hw : Reread v (At p · pos) w) : Moved p v w := by
  obtain ⟨r, rfl, hr⟩ := hw
  exact ⟨r, rfl, pos, hr⟩

theorem Moved.rereads {w : View} (hw : Moved p v w) : ∃ pos, Reread v (At p · pos) w := by
  obtain ⟨r, rfl, pos, hr⟩ := hw
  exact ⟨pos, r, rfl, hr⟩

theorem onReader_spec {α : Type} {m : Reading α} {a : α} {P Q : Reader → Prop} {w : View}
    (hw : Reread v P w) (hm : ∀ r, P r → Gives m r a Q) :
    Gives (View.onReader m) w a (Reread v Q) := by
  obtain ⟨r, rfl, hr⟩ := hw
  obtain ⟨r', hr', hq⟩ := hm r hr
  exact ⟨{ v with reader := r' }, by simp [View.onReader, hr'], r', rfl, hq⟩

theorem Shows.movedSelf (h : Shows p rs v) : Moved p v v := ⟨v.reader, rfl, h.reader⟩

theorem seek_spec (h : Shows p rs v) {w : View} {old pos : Nat} (hw : Reread v (At p · old) w)
    (hpos : pos ≤ size rs) :
    Gives (View.seek pos) w () (Reread v (At p · (v.base + pos))) := by
  have hbase : w.base = v.base := by
    obtain ⟨r, rfl, -⟩ := hw
    rfl
  apply Gives.bind (m := get) ⟨w, rfl, rfl⟩
  rintro t rfl
  rw [hbase]
  exact onReader_spec hw fun r hr => hr.seek (h.seekable hpos)

theorem record_stop_le {pr : Nat × Record} (hpr : pr ∈ placed rs) :
    headerSize ≤ pr.1 ∧ pr.1 + recordSize pr.2 ≤ headerSize + dataSize rs := by
  obtain ⟨before, behind, hrs, hpos⟩ := mem_placedFrom hpr
  rw [hpos, hrs, dataSize_append]
  simp only [dataSize, List.map_cons, List.sum_cons]
  omega

theorem recordLengths_spec (h : Shows p rs v) {pr : Nat × Record} (hpr : pr ∈ placed rs)
    {w : View} {old : Nat} (hw : Reread v (At p · old) w) :
    Gives (View.recordLengths pr.1) w (pr.2.key.length, pr.2.value.length)
      (Reread v (At p · (v.base + pr.1 + lengthsSize))) := by
  obtain ⟨hfirst, hlast⟩ := record_stop_le hpr
  rw [recordSize] at hlast
  have hsmall := h.small
  have hsize : size rs = headerSize + dataSize rs + rs.length * (2 * slotSize) := rfl
  have hend : w.dataEnd = headerSize + dataSize rs := by
    obtain ⟨r, rfl, -⟩ := hw
    exact h.dataEnd
  have hk : (UInt32.ofNat pr.2.key.length).toNat = pr.2.key.length :=
    UInt32.toNat_ofNat_of_lt' (by omega)
  have hv : (UInt32.ofNat pr.2.value.length).toNat = pr.2.value.length :=
    UInt32.toNat_ofNat_of_lt' (by omega)
  have hlies : Lies p.toBytes (v.base + pr.1) (LittleEndian.u32 (UInt32.ofNat pr.2.key.length) ++
      LittleEndian.u32 (UInt32.ofNat pr.2.value.length)) := by
    have hl := h.lies.trans (lies_record hpr)
    rw [recordImage, List.append_assoc] at hl
    exact hl.left
  apply Gives.bind (m := get) ⟨w, rfl, rfl⟩
  rintro t rfl
  simp only [hend]
  rw [if_neg (by omega)]
  apply Gives.bind (seek_spec h hw (by omega))
  intro t ht
  apply Gives.bind (onReader_spec ht fun r hr => hr.pair hlies)
  intro u hu
  simp only [hk, hv]
  rw [if_neg (by omega)]
  exact ⟨u, rfl, hu⟩

end Concordance.Proofs.StoreReading
