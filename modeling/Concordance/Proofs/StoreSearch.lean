import Concordance.Proofs.Probing
import Concordance.Proofs.StoreReading

namespace Concordance.Proofs.StoreSearch

open BlockStore Positioned Cursors Outcomes Probing StoreImage StoreReading

/-- What a search meets behind the slots it has read: the entries of its hash, up to the first
empty slot. -/
def pending (t : Array Slot) (h : UInt32) (probes : Nat) : List Slot :=
  (((cycle t h).drop probes).takeWhile Occupied).filter (·.hash = h)

def spot (h : UInt32) (slots probes : Nat) : Nat := (firstSlot h slots + probes) % slots

theorem spot_lt (h : UInt32) {slots probes : Nat} (hp : probes < slots) :
    spot h slots probes < slots :=
  Nat.mod_lt _ (by omega)

theorem spot_succ (h : UInt32) {slots probes : Nat} (hp : probes < slots) :
    spot h slots (probes + 1) =
      if spot h slots probes + 1 = slots then 0 else spot h slots probes + 1 := by
  have hlt := spot_lt h hp
  rw [spot, ← Nat.add_assoc, ← Nat.mod_add_mod]
  change (spot h slots probes + 1) % slots = _
  split
  · rename_i hend
    rw [hend, Nat.mod_self]
  · exact Nat.mod_eq_of_lt (by omega)

theorem pending_zero (t : Array Slot) (h : UInt32) :
    pending t h 0 = (run t h).filter (·.hash = h) := rfl

theorem pending_size (t : Array Slot) (h : UInt32) : pending t h t.size = [] := by
  rw [pending, List.drop_eq_nil_of_le (Nat.le_of_eq (length_cycle t h))]
  rfl

theorem drop_cycle (t : Array Slot) (h : UInt32) {probes : Nat} (hp : probes < t.size) :
    (cycle t h).drop probes =
      slotAt t (spot h t.size probes) :: (cycle t h).drop (probes + 1) := by
  have hlen : probes < (cycle t h).length := by rwa [length_cycle]
  rw [List.drop_eq_getElem_cons hlen]
  simp [cycle, Table.walk, spot]

theorem pending_of_empty {t : Array Slot} {h : UInt32} {probes : Nat} (hp : probes < t.size)
    (hs : Occupied (slotAt t (spot h t.size probes)) = false) : pending t h probes = [] := by
  rw [pending, drop_cycle t h hp, List.takeWhile_cons, if_neg (by simp [hs])]
  rfl

theorem pending_of_occupied {t : Array Slot} {h : UInt32} {probes : Nat} (hp : probes < t.size)
    (hs : Occupied (slotAt t (spot h t.size probes)) = true) :
    pending t h probes = if (slotAt t (spot h t.size probes)).hash = h then
      slotAt t (spot h t.size probes) :: pending t h (probes + 1)
      else pending t h (probes + 1) := by
  rw [pending, drop_cycle t h hp, List.takeWhile_cons, if_pos hs, List.filter_cons]
  simp only [decide_eq_true_eq]
  rfl

section

variable {p : Tape} {rs : List Record} {v : View}

theorem position_slotOf {pr : Nat × Record} (h : size rs < UInt32.size) (hpr : pr ∈ placed rs) :
    (slotOf pr).position.toNat = pr.1 := by
  obtain ⟨-, hlast⟩ := record_stop_le hpr
  have hsize : size rs = headerSize + dataSize rs + rs.length * (2 * slotSize) := rfl
  exact UInt32.toNat_ofNat_of_lt' (by omega)

theorem position_ne_zero (h : size rs < UInt32.size) : ∀ e ∈ entries rs, e.position ≠ 0 := by
  intro e he hzero
  obtain ⟨pr, hpr, rfl⟩ := List.mem_map.mp he
  have hpos := position_slotOf h hpr
  rw [hzero] at hpos
  obtain ⟨hfirst, -⟩ := record_stop_le hpr
  have hhead : headerSize = 2048 := rfl
  have hz : (0 : UInt32).toNat = 0 := rfl
  omega

theorem length_bucket_lt (h : size rs < UInt32.size) (bucket : Nat) :
    2 * ((entries rs).filter fun e => bucketOf e.hash = bucket).length < UInt32.size := by
  have hle := List.length_filter_le (fun e => decide (bucketOf e.hash = bucket)) (entries rs)
  have hentries : (entries rs).length = rs.length := by
    rw [entries, placed, List.length_map, length_placedFrom]
  have hsize : size rs = headerSize + dataSize rs + rs.length * (2 * 8) := rfl
  omega

theorem holds_table (h : size rs < UInt32.size) (bucket : Nat) :
    Holds (table rs bucket) ((entries rs).filter fun e => bucketOf e.hash = bucket) :=
  holds_build _ (fun e he => position_ne_zero h e (List.mem_filter.mp he).1)
    (divides_of_lt (length_bucket_lt h bucket))

/-- The table of a hash has its entries along the way of a search, in the order of the records. -/
theorem pending_table (h : size rs < UInt32.size) (g : UInt32) :
    pending (table rs (bucketOf g)) g 0 =
      ((placed rs).filter fun pr => KeyHash.hash pr.2.key = g).map slotOf := by
  have hbuild := holds_table h (bucketOf g)
  rw [pending_zero, hbuild.found g, List.filter_filter, entries, List.filter_map]
  congr 1
  apply List.filter_congr
  intro pr _
  by_cases hg : KeyHash.hash pr.2.key = g <;> simp [slotOf, hg]

/-- Where a search stands that has read some slots of its table. -/
structure Standing (rs : List Record) (c : Lookup) : Prop where
  hash : c.hash = KeyHash.hash c.key
  ref : c.table = refOf rs (bucketOf c.hash)
  probes : c.probes ≤ c.table.slots
  slot : c.probes < c.table.slots →
    c.slot = c.table.start + spot c.hash c.table.slots c.probes * slotSize

/-- The records that a search will still yield, with their places. -/
def Awaits (rs : List Record) (c : Lookup) (ms : List (Nat × Record)) : Prop :=
  Standing rs c ∧ ∃ qs : List (Nat × Record),
    pending (table rs (bucketOf c.hash)) c.hash c.probes = qs.map slotOf ∧
    (∀ q ∈ qs, q ∈ placed rs) ∧ qs.filter (·.2.key = c.key) = ms

def hits (rs : List Record) (key : Bytes) : List (Nat × Record) :=
  (placed rs).filter (·.2.key = key)

theorem bucketOf_lt (h : UInt32) : bucketOf h < bucketCount := Nat.mod_lt _ (by decide)

theorem Standing.slots {c : Lookup} (h : Standing rs c) :
    c.table.slots = (table rs (bucketOf c.hash)).size := by
  rw [h.ref]
  exact (refOf_spec rs (bucketOf_lt c.hash)).1

theorem Standing.advance {c : Lookup} (h : Standing rs c) (hp : c.probes < c.table.slots) :
    Standing rs c.advance := by
  refine ⟨h.hash, h.ref, hp, ?_⟩
  intro hnext
  have hs : c.slot = c.table.start + spot c.hash c.table.slots c.probes * 8 := h.slot hp
  have hlt := spot_lt c.hash hp
  change (if c.slot + 8 = c.table.start + c.table.slots * 8 then c.table.start else c.slot + 8) =
    c.table.start + spot c.hash c.table.slots (c.probes + 1) * 8
  rw [spot_succ c.hash hp, hs]
  by_cases hend : spot c.hash c.table.slots c.probes + 1 = c.table.slots
  · rw [if_pos hend, if_pos (by omega)]
    omega
  · rw [if_neg hend, if_neg (by omega)]
    omega

theorem Standing.passed {c : Lookup} (h : Standing rs c) :
    Standing rs { c with probes := c.table.slots } :=
  ⟨h.hash, h.ref, Nat.le_refl _, fun hlt => absurd hlt (Nat.lt_irrefl _)⟩

theorem pending_end {c : Lookup} (h : Standing rs c) :
    pending (table rs (bucketOf c.hash)) c.hash c.table.slots = [] := by
  rw [h.slots, pending_size]

theorem Awaits.passed {c : Lookup} (h : Standing rs c) :
    Awaits rs { c with probes := c.table.slots } [] :=
  ⟨h.passed, [], pending_end (c := c) h, by simp, rfl⟩

theorem Awaits.eq_nil {c : Lookup} {ms : List (Nat × Record)} (h : Awaits rs c ms)
    (hnone : pending (table rs (bucketOf c.hash)) c.hash c.probes = []) : ms = [] := by
  obtain ⟨-, qs, hqs, -, rfl⟩ := h
  rw [hnone] at hqs
  rw [List.map_eq_nil_iff.mp hqs.symm]
  rfl

theorem Awaits.skip {c : Lookup} {ms : List (Nat × Record)} (h : Awaits rs c ms)
    (hp : c.probes < c.table.slots)
    (hskip : pending (table rs (bucketOf c.hash)) c.hash c.probes =
      pending (table rs (bucketOf c.hash)) c.hash (c.probes + 1)) : Awaits rs c.advance ms := by
  obtain ⟨hs, qs, hqs, hmem, hms⟩ := h
  exact ⟨hs.advance hp, qs, hskip.symm.trans hqs, hmem, hms⟩

theorem Awaits.step {c : Lookup} {ms : List (Nat × Record)} {s : Slot} (h : Awaits rs c ms)
    (hp : c.probes < c.table.slots)
    (hnext : pending (table rs (bucketOf c.hash)) c.hash c.probes =
      s :: pending (table rs (bucketOf c.hash)) c.hash (c.probes + 1)) :
    ∃ q ∈ placed rs, slotOf q = s ∧ ∃ ms', Awaits rs c.advance ms' ∧
      ms = if q.2.key = c.key then q :: ms' else ms' := by
  obtain ⟨hs, qs, hqs, hmem, rfl⟩ := h
  rw [hnext] at hqs
  cases qs with
  | nil => cases hqs
  | cons q qs =>
      obtain ⟨rfl, hbehind⟩ := List.cons.inj hqs
      refine ⟨q, hmem q List.mem_cons_self, rfl, qs.filter (·.2.key = c.key), ?_, ?_⟩
      · exact ⟨hs.advance hp, qs, hbehind, fun q' hq' => hmem q' (List.mem_cons_of_mem q hq'), rfl⟩
      · rw [List.filter_cons]
        simp only [decide_eq_true_eq]

theorem matchesAhead_spec {w : View} {key stored : Bytes} {pos : Nat}
    (hw : Reread v (At p · pos) w) (hl : Lies p.toBytes pos stored)
    (hlen : stored.length = key.length) :
    Gives (View.matchesAhead key) w (decide (stored = key))
      (Moved p v) := by
  induction hn : key.length using Nat.strongRecOn generalizing key stored pos w with
  | _ n ih =>
      rw [View.matchesAhead]
      by_cases hk : key = []
      · have hs : stored = [] := List.eq_nil_of_length_eq_zero (by simp [hlen, hk])
        obtain ⟨r, rfl, hr⟩ := hw
        rw [if_pos hk, hs, hk]
        exact ⟨_, rfl, r, rfl, pos, hr⟩
      · have hpos : 0 < key.length := List.length_pos_iff.mpr hk
        have hsplit : Lies p.toBytes pos (stored.take 64 ++ stored.drop 64) := by
          rwa [List.take_append_drop]
        have htake : (stored.take 64).length = min key.length 64 := by
          rw [List.length_take, hlen, Nat.min_comm]
        rw [if_neg hk]
        apply Gives.bind (onReader_spec hw fun r hr => htake ▸ hr.takeChunk hsplit.left)
        intro t ht
        by_cases heq : stored.take 64 = key.take 64
        · have hdrop : (stored = key) ↔ (stored.drop 64 = key.drop 64) := by
            constructor
            · intro h
              rw [h]
            · intro h
              rw [← List.take_append_drop 64 stored, heq, h, List.take_append_drop]
          rw [if_pos heq]
          simp only [hdrop]
          exact ih (key.drop 64).length (by simp; omega) (htake ▸ ht) hsplit.right
            (by simp [hlen]) rfl
        · have hne : stored ≠ key := fun h => heq (by rw [h])
          obtain ⟨r, rfl, hr⟩ := ht
          rw [if_neg heq, decide_eq_false hne]
          exact ⟨_, rfl, r, rfl, _, hr⟩

theorem lies_parts {pr : Nat × Record} (h : Shows p rs v) (hpr : pr ∈ placed rs) :
    Lies p.toBytes (v.base + pr.1 + lengthsSize) pr.2.key ∧
      Lies p.toBytes (v.base + pr.1 + lengthsSize + pr.2.key.length) pr.2.value := by
  have hl := h.lies.trans (lies_record hpr)
  rw [recordImage, List.append_assoc] at hl
  have hr := hl.right
  simp only [List.length_append, LittleEndian.length_u32] at hr
  exact ⟨hr.left, hr.right⟩

theorem holdsKey_spec (h : Shows p rs v) {pr : Nat × Record} (hpr : pr ∈ placed rs) {w : View}
    {old : Nat} (hw : Reread v (At p · old) w) {key : Bytes}
    (hlen : pr.2.key.length = key.length) :
    Gives (View.holdsKey pr.1 key) w (decide (pr.2.key = key))
      (Moved p v) := by
  obtain ⟨-, hlast⟩ := record_stop_le hpr
  rw [recordSize] at hlast
  have hsize : size rs = headerSize + dataSize rs + rs.length * (2 * slotSize) := rfl
  apply Gives.bind (seek_spec h hw (by omega))
  intro t ht
  rw [← Nat.add_assoc] at ht
  exact matchesAhead_spec ht (lies_parts h hpr).1 hlen

theorem slot_lies {c : Lookup} (h : Shows p rs v) (hc : Standing rs c)
    (hp : c.probes < c.table.slots) :
    c.slot ≤ size rs ∧ Lies p.toBytes (v.base + c.slot) (slotImage
      (slotAt (table rs (bucketOf c.hash)) (spot c.hash c.table.slots c.probes))) := by
  obtain ⟨-, -, hlies⟩ := refOf_spec rs (bucketOf_lt c.hash)
  have hsize : spot c.hash c.table.slots c.probes < (table rs (bucketOf c.hash)).size :=
    hc.slots ▸ spot_lt c.hash hp
  have hl := hlies.trans (lies_slot hsize)
  rw [← hc.ref, ← hc.slot hp] at hl
  have hat : slotAt (table rs (bucketOf c.hash)) (spot c.hash c.table.slots c.probes) =
      (table rs (bucketOf c.hash))[spot c.hash c.table.slots c.probes] := by
    simp [slotAt, hsize]
  rw [hat]
  have hle := hl.le_length
  rw [length_image] at hle
  exact ⟨by omega, h.lies.trans hl⟩

def foundAt (pr : Nat × Record) : Nat × Nat :=
  (pr.1 + lengthsSize + pr.2.key.length, pr.2.value.length)

def onSlot (n : Nat) (c : Lookup) (hash pos : UInt32) : Viewing (Lookup × Option (Nat × Nat)) := do
  if pos = 0 then return ({ c with probes := c.table.slots }, none)
  if hash = c.hash then
    let (key, value) ← View.recordLengths pos.toNat
    if key = c.key.length then
      if ← View.holdsKey pos.toNat c.key then
        return (c.advance, some (pos.toNat + lengthsSize + key, value))
  View.search n c.advance

theorem search_succ (n : Nat) (c : Lookup) :
    View.search (n + 1) c = (do
      View.seek c.slot
      let (hash, pos) ← View.onReader Reader.pair
      onSlot n c hash pos) := rfl

theorem onSlot_other {c : Lookup} {hash pos : UInt32} (n : Nat) (hpos : pos ≠ 0)
    (hhash : hash ≠ c.hash) : onSlot n c hash pos = View.search n c.advance := by
  rw [onSlot, if_neg hpos, if_neg hhash]

theorem onSlot_same (h : Shows p rs v) {q : Nat × Record} (hq : q ∈ placed rs) {w : View}
    {old n : Nat} (hw : Reread v (At p · old) w) {c : Lookup} (hhash : (slotOf q).hash = c.hash) :
    if q.2.key = c.key then
      Gives (onSlot n c (slotOf q).hash (slotOf q).position) w (c.advance, some (foundAt q))
        (Moved p v)
    else
      ∃ t pos, Reread v (At p · pos) t ∧
        onSlot n c (slotOf q).hash (slotOf q).position w = View.search n c.advance t := by
  have hne : (slotOf q).position ≠ 0 :=
    position_ne_zero h.small _ (List.mem_map.mpr ⟨q, hq, rfl⟩)
  obtain ⟨t, hlengths, ht⟩ := recordLengths_spec h hq hw
  rw [onSlot, if_neg hne, if_pos hhash, position_slotOf h.small hq, gives_bind_iff hlengths,
    bind_of_ok hlengths]
  by_cases hlen : q.2.key.length = c.key.length
  · obtain ⟨u, hholds, r, rfl, pos, hr⟩ := holdsKey_spec h hq ht hlen
    simp only [if_pos hlen]
    rw [gives_bind_iff hholds, bind_of_ok hholds]
    by_cases hkey : q.2.key = c.key
    · rw [if_pos hkey, if_pos (decide_eq_true hkey)]
      exact ⟨_, rfl, r, rfl, pos, hr⟩
    · rw [if_neg hkey, if_neg (by simp [hkey])]
      exact ⟨_, pos, ⟨r, rfl, hr⟩, rfl⟩
  · have hkey : q.2.key ≠ c.key := fun heq => hlen (by rw [heq])
    simp only [if_neg hlen]
    rw [if_neg hkey]
    exact ⟨t, _, ht, rfl⟩

/-- A search finds the next of the records it awaits, or the end of them. -/
theorem search_spec (h : Shows p rs v) {w : View} {n old : Nat} {c : Lookup}
    {ms : List (Nat × Record)} (hw : Reread v (At p · old) w)
    (hn : n = c.table.slots - c.probes) (hc : Awaits rs c ms) :
    ∃ c', Gives (View.search n c) w (c', ms.head?.map foundAt)
        (Moved p v) ∧
      c'.key = c.key ∧ Awaits rs c' ms.tail := by
  have hs := hc.1
  induction n generalizing w old c ms with
  | zero =>
      have hend : c.probes = c.table.slots := by
        have := hs.probes
        omega
      obtain rfl := hc.eq_nil (by rw [hend, pending_end hs])
      obtain ⟨r, rfl, hr⟩ := hw
      exact ⟨c, ⟨_, rfl, r, rfl, old, hr⟩, rfl, hc⟩
  | succ n ih =>
      have hp : c.probes < c.table.slots := by omega
      have hsize : c.probes < (table rs (bucketOf c.hash)).size := hs.slots ▸ hp
      have hadvance := hs.advance hp
      have hnext : n = c.advance.table.slots - c.advance.probes := by
        change n = c.table.slots - (c.probes + 1)
        omega
      obtain ⟨hle, hlies⟩ := slot_lies h hs hp
      obtain ⟨t, hseek, ht⟩ := seek_spec h hw hle
      obtain ⟨u, hpair, hu⟩ := onReader_spec ht fun r hr => hr.pair hlies
      have hempty := pending_of_empty (h := c.hash) hsize
      have hoccupied := pending_of_occupied (h := c.hash) hsize
      rw [← hs.slots] at hempty hoccupied
      simp only [search_succ, gives_bind_iff hseek, gives_bind_iff hpair]
      generalize slotAt (table rs (bucketOf c.hash)) (spot c.hash c.table.slots c.probes) = s
        at hempty hoccupied ⊢
      by_cases hzero : s.position = 0
      · -- an empty slot ends the search, and nothing was awaited
        obtain rfl := hc.eq_nil (hempty (by simp [Occupied, hzero]))
        obtain ⟨r, rfl, hr⟩ := hu
        rw [hzero]
        exact ⟨_, ⟨_, rfl, r, rfl, _, hr⟩, rfl, Awaits.passed hs⟩
      have hpending := hoccupied (by simp [Occupied, hzero])
      by_cases hhash : s.hash = c.hash
      · rw [if_pos hhash] at hpending
        obtain ⟨q, hq, rfl, ms', hrest, rfl⟩ := hc.step hp hpending
        have hsame := onSlot_same h hq hu (n := n) hhash
        by_cases hkey : q.2.key = c.key
        · rw [if_pos hkey] at hsame
          rw [if_pos hkey]
          exact ⟨c.advance, hsame, rfl, hrest⟩
        · rw [if_neg hkey] at hsame
          obtain ⟨w', pos, hw', hsearch⟩ := hsame
          rw [if_neg hkey]
          simp only [Gives, hsearch]
          exact ih hw' hnext hrest hadvance
      · rw [if_neg hhash] at hpending
        rw [onSlot_other n hzero hhash]
        exact ih hu hnext (hc.skip hp hpending) hadvance

structure Searching (p : Tape) (rs : List Record) (ms : List (Nat × Record)) (v : View) : Prop where
  shows : Shows p rs v
  awaits : ∃ c, v.lookup = some c ∧ Awaits rs c ms

theorem tableOf_eq (h : Shows p rs v) (hash : UInt32) :
    v.tableOf hash = refOf rs (bucketOf hash) := by
  rw [View.tableOf, h.tables, refOf]

theorem findStart_spec (h : Shows p rs v) (key : Bytes) :
    Searching p rs (hits rs key) (v.findStart key) := by
  refine ⟨h.lookup _, _, rfl, ⟨rfl, tableOf_eq h _, Nat.zero_le _, ?_⟩, _,
    pending_table h.small (KeyHash.hash key), fun q hq => (List.mem_filter.mp hq).1, ?_⟩
  · intro hpos
    change (if (v.tableOf (KeyHash.hash key)).slots = 0 then _ else _) = _
    have hslots : (v.tableOf (KeyHash.hash key)).slots ≠ 0 := Nat.ne_of_gt hpos
    have hfits : (v.tableOf (KeyHash.hash key)).slots < UInt32.size := by
      rw [tableOf_eq h, (refOf_spec rs (bucketOf_lt _)).1, table, Table.size_build]
      exact length_bucket_lt h.small _
    rw [if_neg hslots, spot, Nat.add_zero, firstSlot_mod _ (ofNat_ne_zero hpos hfits)]
  · rw [List.filter_filter, hits]
    apply List.filter_congr
    intro q _
    by_cases hq : q.2.key = key <;> simp [hq]

theorem findNext_spec {ms : List (Nat × Record)} (h : Searching p rs ms v) :
    Gives View.findNext v (ms.head?.map (·.2.value)) (Searching p rs ms.tail) := by
  obtain ⟨hv, c, hc, hawaits⟩ := h
  have hidle : Shows p rs { v with lookup := none } := hv.lookup none
  obtain ⟨pos, hmoved⟩ := hidle.movedSelf.rereads
  obtain ⟨c', hsearch, -, hrest⟩ := search_spec hidle hmoved rfl hawaits
  have hmem : ∀ q ∈ ms, q ∈ placed rs := by
    obtain ⟨-, qs, -, hqs, rfl⟩ := hawaits
    exact fun q hq => hqs q (List.mem_filter.mp hq).1
  rw [View.findNext, gives_get_bind_iff, hc]
  simp only [gives_modify_bind_iff]
  obtain ⟨t, ht, hw⟩ := hsearch
  rw [gives_bind_iff ht]
  simp only [gives_modify_bind_iff]
  have hfound : Shows p rs { t with lookup := some c' } := (hw.shows hidle).lookup _
  cases ms with
  | nil => exact ⟨_, rfl, hfound, c', rfl, hrest⟩
  | cons q ms =>
      obtain ⟨-, hlast⟩ := record_stop_le (hmem q (by simp))
      rw [recordSize] at hlast
      have hsize : size rs = headerSize + dataSize rs + rs.length * (2 * slotSize) := rfl
      obtain ⟨old, hself⟩ := hfound.movedSelf.rereads
      apply Gives.bind (seek_spec hfound hself (by omega))
      intro u hu
      have hvalue := (lies_parts hfound (hmem q (by simp))).2
      rw [Nat.add_assoc, Nat.add_assoc, ← Nat.add_assoc q.1] at hvalue
      apply Gives.bind (onReader_spec hu fun r hr => hr.takeChunk hvalue)
      intro x hx
      have hshows := hx.moved.shows hfound
      obtain ⟨r, rfl, -⟩ := hx
      exact ⟨_, rfl, hshows, c', rfl, hrest⟩

theorem findRest_spec {n : Nat} {ms : List (Nat × Record)} (h : Searching p rs ms v)
    (hn : ms.length < n) :
    Gives (View.findRest n) v (ms.map (·.2.value)) (Searching p rs []) := by
  induction n generalizing v ms with
  | zero => omega
  | succ n ih =>
      rw [View.findRest]
      apply Gives.bind (findNext_spec h)
      intro t ht
      cases ms with
      | nil => exact ⟨t, rfl, ht⟩
      | cons q ms =>
          apply Gives.bind (ih ht (by simpa using hn))
          intro u hu
          exact ⟨u, rfl, hu⟩

def values (rs : List Record) (key : Bytes) : List Bytes :=
  (rs.filter (·.key = key)).map (·.value)

theorem map_hits (rs : List Record) (key : Bytes) :
    (hits rs key).map (·.2.value) = values rs key := by
  have hmap : (placed rs).map (·.2) = rs := map_snd_placedFrom headerSize rs
  rw [hits, values]
  nth_rewrite 2 [← hmap]
  rw [List.filter_map, List.map_map]
  rfl

theorem length_hits_le (h : Shows p rs v) (key : Bytes) :
    (hits rs key).length ≤ (v.tableOf (KeyHash.hash key)).slots := by
  have hbucket : ((hits rs key).map slotOf).Sublist
      ((entries rs).filter fun e => bucketOf e.hash = bucketOf (KeyHash.hash key)) := by
    rw [entries, List.filter_map]
    apply List.Sublist.map
    apply List.monotone_filter_right
    intro q hq
    have hkey : q.2.key = key := by simpa using hq
    simp [slotOf, hkey]
  have hlen := hbucket.length_le
  rw [tableOf_eq h, (refOf_spec rs (bucketOf_lt _)).1, table, Table.size_build]
  rw [List.length_map] at hlen
  omega

theorem findAll_spec (h : Shows p rs v) (key : Bytes) :
    Gives (View.findAll key) v (values rs key) (Searching p rs []) := by
  rw [View.findAll, gives_modify_bind_iff, gives_get_bind_iff, ← map_hits]
  exact findRest_spec (findStart_spec h key) (Nat.lt_succ_of_le (length_hits_le h key))

theorem find_spec (h : Shows p rs v) (key : Bytes) :
    Gives (View.find key) v (values rs key).head? (Searching p rs (hits rs key).tail) := by
  rw [View.find, gives_modify_bind_iff, ← map_hits, List.head?_map]
  exact findNext_spec (findStart_spec h key)

end

end Concordance.Proofs.StoreSearch
