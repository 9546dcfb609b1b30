import Concordance.Proofs.Lookups

namespace Concordance.Proofs.StoreLayout

open BlockStore Cursors Probing StoreImage StoreReading StoreSearch StoreRoundTrip Lookups

variable (rs : List Record)

def crowd (bucket : Nat) : Nat := rs.countP fun r => bucketOf (KeyHash.hash r.key) = bucket

def residents (bucket : Nat) : List (Nat × Record) :=
  (placed rs).filter fun pr => bucketOf (KeyHash.hash pr.2.key) = bucket

/-- Behind the records, the table of a bucket follows those of the buckets before it. A slot takes
eight bytes. -/
def head (bucket : Nat) : TableRef :=
  ⟨headerSize + dataSize rs + 8 * ∑ i ∈ Finset.range bucket, 2 * crowd rs i, 2 * crowd rs bucket⟩

variable {rs}

theorem refsFrom_append (pos : Nat) (ts us : List (Array Slot)) :
    refsFrom pos (ts ++ us) =
      refsFrom pos ts ++ refsFrom (pos + slotSize * (ts.map Array.size).sum) us := by
  induction ts generalizing pos with
  | nil => rfl
  | cons t ts ih =>
      have hpos : pos + slotSize * ((t :: ts).map Array.size).sum =
          pos + t.size * slotSize + slotSize * (ts.map Array.size).sum := by
        rw [List.map_cons, List.sum_cons, Nat.mul_add, Nat.mul_comm t.size, Nat.add_assoc]
      rw [hpos, List.cons_append, refsFrom, refsFrom, ih, List.cons_append]

theorem sum_size_range (n : Nat) : (((List.range n).map (table rs)).map Array.size).sum =
    ∑ i ∈ Finset.range n, 2 * crowd rs i := by
  simp only [List.map_map, Function.comp_def, size_table]
  rfl

theorem sum_crowd (rs : List Record) : ∑ i ∈ Finset.range bucketCount, 2 * crowd rs i =
    2 * rs.length := by
  rw [← sum_size_range]
  exact sum_tables rs

theorem refsFrom_range (pos n : Nat) :
    refsFrom pos ((List.range n).map (table rs)) = (List.range n).map fun i =>
      ⟨pos + slotSize * ∑ j ∈ Finset.range i, 2 * crowd rs j, 2 * crowd rs i⟩ := by
  induction n with
  | zero => rfl
  | succ n ih =>
      rw [List.range_succ, List.map_append, List.map_append, refsFrom_append, ih, sum_size_range]
      simp only [List.map_cons, List.map_nil, refsFrom, size_table, crowd]

theorem refs_eq : refs rs = (List.range bucketCount).map (head rs) :=
  refsFrom_range _ _

theorem stop_head (rs : List Record) (i : Nat) : (head rs i).stop = (head rs (i + 1)).start := by
  have hstop : (head rs i).stop = headerSize + dataSize rs +
      8 * ∑ j ∈ Finset.range i, 2 * crowd rs j + 2 * crowd rs i * 8 := rfl
  have hstart : (head rs (i + 1)).start = headerSize + dataSize rs +
      8 * ∑ j ∈ Finset.range (i + 1), 2 * crowd rs j := rfl
  rw [hstop, hstart, Finset.sum_range_succ]
  omega

theorem stop_head_last (rs : List Record) : (head rs 255).stop = size rs := by
  have hstart : (head rs 256).start = headerSize + dataSize rs +
      8 * ∑ j ∈ Finset.range bucketCount, 2 * crowd rs j := rfl
  have hsize : size rs = headerSize + dataSize rs + rs.length * (2 * 8) := rfl
  rw [stop_head, hstart, sum_crowd, hsize]
  omega

section

variable {t : Array Slot} {s e : Slot}

theorem mem_place (h : s ∈ (Table.place t e).toList) : s ∈ t.toList ∨ s = e := by
  rw [Table.place] at h
  split at h
  · rw [Array.toList_setIfInBounds] at h
    exact List.mem_or_eq_of_mem_set h
  · exact .inl h

theorem mem_foldl_place {es : List Slot} (h : s ∈ (es.foldl Table.place t).toList) :
    s ∈ es ∨ s ∈ t.toList := by
  induction es generalizing t with
  | nil => exact .inr h
  | cons e es ih =>
      rcases ih h with hin | hbefore
      · exact .inl (List.mem_cons_of_mem e hin)
      · rcases mem_place hbefore with hold | rfl
        · exact .inr hold
        · exact .inl List.mem_cons_self

/-- A slot of a table holds one of the entries or is as it was at the beginning. -/
theorem mem_build {es : List Slot} (h : s ∈ (Table.build es).toList) : s ∈ es ∨ s = Slot.empty := by
  rcases mem_foldl_place h with hin | hold
  · exact .inl hin
  · rw [Array.toList_replicate] at hold
    exact .inr (List.eq_of_mem_replicate hold)

end

theorem occupied_table (h : size rs < UInt32.size) (bucket : Nat) :
    ((table rs bucket).toList.filter Occupied).Perm ((residents rs bucket).map slotOf) := by
  have hentries : (entries rs).filter (fun e => bucketOf e.hash = bucket) =
      (residents rs bucket).map slotOf := by
    rw [entries, List.filter_map, residents]
    rfl
  rw [← hentries]
  exact (holds_table h bucket).perm

theorem empty_table (h : size rs < UInt32.size) {bucket : Nat} {s : Slot}
    (hs : s ∈ (table rs bucket).toList) (hempty : Occupied s = false) : s = ⟨0, 0⟩ := by
  rcases mem_build hs with hin | rfl
  · have hne := position_ne_zero h s (List.mem_filter.mp hin).1
    simp [Occupied, hne] at hempty
  · rfl

theorem countP_crowds (rs : List Record) : (crowds rs).countP (0 < ·) =
    (rs.map fun r => bucketOf (KeyHash.hash r.key)).toFinset.card := by
  have hused : (Finset.range bucketCount).filter (0 < crowd rs ·) =
      (rs.map fun r => bucketOf (KeyHash.hash r.key)).toFinset := by
    ext i
    rw [Finset.mem_filter, Finset.mem_range, List.mem_toFinset, List.mem_map, crowd,
      List.countP_pos_iff]
    simp only [decide_eq_true_eq]
    constructor
    · exact fun h => h.2
    · rintro ⟨r, hr, rfl⟩
      exact ⟨bucketOf_lt _, r, hr, rfl⟩
  rw [← hused, crowds, List.countP_map, List.countP_eq_length_filter]
  rfl

theorem foldl_max_double (ks : List Nat) (n : Nat) :
    ks.foldl (fun m k => max m (2 * k)) (2 * n) = 2 * ks.foldl max n := by
  induction ks generalizing n with
  | nil => rfl
  | cons k ks ih => rw [List.foldl_cons, List.foldl_cons, Nat.mul_max_mul_left, ih]

theorem statsOf_eq (rs : List Record) : statsOf rs = ⟨rs.length, size rs,
    (rs.map fun r => bucketOf (KeyHash.hash r.key)).toFinset.card,
    2 * ((List.range bucketCount).map (crowd rs)).foldl max 0⟩ := by
  rw [statsOf, countP_crowds, ← foldl_max_double]
  rfl

/-- The file is made of the parts that the format names, each at its place. -/
structure LaidOut (rs : List Record) (ts : List (Array Slot)) (file : Bytes) : Prop where
  bytes : file = ((List.range 256).map (head rs)).flatMap refImage ++
    (rs.flatMap recordImage ++ ts.flatMap tableImage)
  small : file.length < UInt32.size
  record : ∀ pr ∈ placed rs, (slotOf pr).position.toNat = pr.1 ∧ Lies file pr.1 (recordImage pr.2)
  tables : ts.length = 256
  table : ∀ (i : Nat) (t : Array Slot), ts[i]? = some t →
    t.size = 2 * crowd rs i ∧ Lies file (head rs i).start (tableImage t)
  occupied : ∀ (i : Nat) (t : Array Slot), ts[i]? = some t →
    (t.toList.filter Occupied).Perm ((residents rs i).map slotOf)
  empty : ∀ t ∈ ts, ∀ s ∈ t.toList, Occupied s = false → s = ⟨0, 0⟩

theorem laidOut_image (h : size rs < UInt32.size) : LaidOut rs (tables rs) (image rs) := by
  have htable : ∀ {i : Nat} {t : Array Slot}, (tables rs)[i]? = some t →
      i < bucketCount ∧ t = table rs i := by
    intro i t ht
    obtain ⟨hi, rfl⟩ := List.getElem?_eq_some_iff.mp ht
    simp [tables] at hi ⊢
    exact hi
  have hhead : ∀ {i : Nat}, i < bucketCount → refOf rs i = head rs i := by
    intro i hi
    rw [refOf, refs_eq, List.getD_eq_getElem?_getD, List.getElem?_map, List.getElem?_range hi]
    rfl
  refine ⟨?_, ?_, ?_, ?_, ?_, ?_, ?_⟩
  · rw [image, refs_eq]
    rfl
  · rwa [length_image]
  · exact fun pr hpr => ⟨position_slotOf h hpr, lies_record hpr⟩
  · rw [tables, List.length_map, List.length_range]
    rfl
  · intro i t ht
    obtain ⟨hi, rfl⟩ := htable ht
    exact ⟨size_table rs i, hhead hi ▸ (refOf_spec rs hi).2.2⟩
  · intro i t ht
    obtain ⟨-, rfl⟩ := htable ht
    exact occupied_table h i
  · intro t ht s hs hempty
    obtain ⟨i, -, rfl⟩ := List.mem_map.mp ht
    exact empty_table h hs hempty

/-- The store of records that take less than four gibibytes is laid out as the format has it. Besides
the header, each record takes eight bytes with its key and its value, and two slots. The statistics
count the records and the bytes, the buckets that are used, and the slots of the longest table. -/
theorem make_layout (rs : List Record)
    (h : 2048 + (rs.map fun r => 8 + r.key.length + r.value.length).sum + 16 * rs.length <
      UInt32.size) :
    ∃ file summary ts, make rs = .ok (file, summary) ∧ LaidOut rs ts file ∧
      file.length =
        2048 + (rs.map fun r => 8 + r.key.length + r.value.length).sum + 16 * rs.length ∧
      summary = ⟨rs.length, file.length⟩ ∧
      ∃ v w, View.ofBytes file = .ok v ∧ View.stats v = .ok ⟨rs.length, file.length,
        (rs.map fun r => bucketOf (KeyHash.hash r.key)).toFinset.card,
        2 * ((List.range 256).map (crowd rs)).foldl max 0⟩ w := by
  have hsize : size rs =
      2048 + (rs.map fun r => 8 + r.key.length + r.value.length).sum + 16 * rs.length := by
    rw [Nat.mul_comm 16]
    rfl
  rw [← hsize] at h ⊢
  obtain ⟨v, hopen, hshows, -⟩ := ofBytes_image h
  obtain ⟨w, hstats, -⟩ := stats_spec hshows
  rw [statsOf_eq] at hstats
  refine ⟨image rs, ⟨rs.length, size rs⟩, tables rs, make_of_lt h, laidOut_image h, length_image rs,
    ?_, v, w, hopen, ?_⟩
  · rw [length_image]
  · rw [length_image]
    exact hstats

theorem make_layout_collision : ∃ file summary ts, make collision = .ok (file, summary) ∧
    LaidOut collision ts file ∧ file.length = 2128 ∧ summary = ⟨3, 2128⟩ ∧
      ∃ v w, View.ofBytes file = .ok v ∧ View.stats v = .ok ⟨3, 2128, 1, 6⟩ w := by
  obtain ⟨file, summary, ts, hmake, hlaid, hlength, hsummary, v, w, hopen, hstats⟩ :=
    make_layout collision (by decide)
  have hbuckets :
      (collision.map fun r => bucketOf (KeyHash.hash r.key)).toFinset.card = 1 := by decide +kernel
  have hcrowd : ((List.range 256).map (crowd collision)).foldl max 0 = 3 := by decide +kernel
  rw [hbuckets, hcrowd, hlength] at hstats
  rw [hlength] at hsummary
  exact ⟨file, summary, ts, hmake, hlaid, hlength, hsummary, v, w, hopen, hstats⟩

end Concordance.Proofs.StoreLayout
