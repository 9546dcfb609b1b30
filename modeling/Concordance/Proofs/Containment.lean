import Concordance.Proofs.GuardedViews
import Concordance.Proofs.StoreReading

namespace Concordance.Proofs.Containment

open BlockStore Positioned Cursors Outcomes Guards GuardedViews StoreReading

structure OnTable (length : Nat) (c : Lookup) : Prop where
  stop : c.table.stop ≤ length
  probes : c.probes ≤ c.table.slots
  slot : c.probes < c.table.slots →
    ∃ i, i < c.table.slots ∧ c.slot = c.table.start + i * slotSize

/-- The view lies within its file, and its tables within the view. -/
structure Contained (p : Tape) (v : View) : Prop where
  reader : ∃ pos, At p v.reader pos
  inside : v.base + v.length ≤ p.size
  addressable : v.base + v.length < UInt64.size
  small : v.length < UInt32.size
  header : headerSize ≤ v.length
  tables : ∀ t ∈ v.tables, headerSize ≤ t.start ∧ t.stop ≤ v.length
  lookup : ∀ c, v.lookup = some c → OnTable v.length c

/-- Another state of the same view. -/
structure Kept (p : Tape) (v w : View) : Prop where
  contained : Contained p w
  base : w.base = v.base
  length : w.length = v.length
  tables : w.tables = v.tables

def InData (file : Bytes) (v : View) (value : Bytes) : Prop :=
  ∃ start, headerSize ≤ start ∧ start + value.length ≤ v.dataEnd ∧
    value = file.slice (v.base + start) value.length

def remaining (v : View) : Nat :=
  match v.lookup with
  | none => 0
  | some c => c.table.slots - c.probes

def IsFormat (e : Error) : Prop := ∃ fault, e = .format fault

def Faulty (p : Tape) (v : View) (e : Error) (w : View) : Prop := IsFormat e ∧ Moved p v w

def Failed (p : Tape) (v : View) (e : Error) (w : View) : Prop := IsFormat e ∧ Kept p v w

variable {p : Tape} {v w : View}

theorem OnTable.passed {length : Nat} {c : Lookup} (h : OnTable length c) :
    OnTable length { c with probes := c.table.slots } :=
  ⟨h.stop, Nat.le_refl _, fun hlt => absurd hlt (Nat.lt_irrefl _)⟩

theorem OnTable.slot_le {length : Nat} {c : Lookup} (h : OnTable length c)
    (hp : c.probes < c.table.slots) : c.slot + slotSize ≤ length := by
  obtain ⟨i, hi, hslot⟩ := h.slot hp
  have hstop : c.table.start + c.table.slots * 8 ≤ length := h.stop
  have hslot8 : c.slot = c.table.start + i * 8 := hslot
  change c.slot + 8 ≤ length
  omega

theorem OnTable.advance {length : Nat} {c : Lookup} (h : OnTable length c)
    (hp : c.probes < c.table.slots) : OnTable length c.advance := by
  obtain ⟨i, hi, hslot⟩ := h.slot hp
  have hslot8 : c.slot = c.table.start + i * 8 := hslot
  refine ⟨h.stop, hp, ?_⟩
  intro _
  change ∃ j, j < c.table.slots ∧ (if c.slot + 8 = c.table.start + c.table.slots * 8 then
    c.table.start else c.slot + 8) = c.table.start + j * 8
  by_cases hend : i + 1 = c.table.slots
  · rw [if_pos (by omega)]
    exact ⟨0, by omega, by omega⟩
  · rw [if_neg (by omega)]
    exact ⟨i + 1, by omega, by omega⟩

theorem Contained.dataEnd_le (h : Contained p v) : v.dataEnd ≤ v.length := by
  rw [View.dataEnd]
  cases ht : v.tables with
  | nil => exact h.header
  | cons t ts =>
      have hstop := (h.tables t (by simp [ht])).2
      rw [TableRef.stop] at hstop
      rw [List.headD_cons]
      omega

theorem Contained.tableOf_stop_le (h : Contained p v) (hash : UInt32) :
    (v.tableOf hash).stop ≤ v.length := by
  rw [View.tableOf, List.getD_eq_getElem?_getD]
  cases ht : v.tables[bucketOf hash]? with
  | none => exact h.header
  | some t => exact (h.tables t (List.mem_of_getElem? ht)).2

theorem Contained.withLookup (h : Contained p v) {l : Option Lookup}
    (hl : ∀ c, l = some c → OnTable v.length c) : Contained p { v with lookup := l } :=
  ⟨h.reader, h.inside, h.addressable, h.small, h.header, h.tables, hl⟩

theorem Contained.moved (h : Contained p v) (hw : Moved p v w) : Contained p w := by
  obtain ⟨r, rfl, hr⟩ := hw
  exact ⟨hr, h.inside, h.addressable, h.small, h.header, h.tables, h.lookup⟩

theorem Contained.movedSelf (h : Contained p v) : Moved p v v := ⟨v.reader, rfl, h.reader⟩

theorem Contained.keptSelf (h : Contained p v) : Kept p v v := ⟨h, rfl, rfl, rfl⟩

theorem Contained.kept (h : Contained p v) (hw : Moved p v w) : Kept p v w := by
  have hcontained := h.moved hw
  obtain ⟨r, rfl, -⟩ := hw
  exact ⟨hcontained, rfl, rfl, rfl⟩

theorem Kept.trans {u : View} (h : Kept p u v) (h' : Kept p v w) : Kept p u w :=
  ⟨h'.contained, h'.base.trans h.base, h'.length.trans h.length, h'.tables.trans h.tables⟩

theorem Kept.withLookup (h : Kept p v w) {l : Option Lookup}
    (hl : ∀ c, l = some c → OnTable v.length c) : Kept p v { w with lookup := l } :=
  ⟨h.contained.withLookup fun c hc => h.length ▸ hl c hc, h.base, h.length, h.tables⟩

theorem Kept.dataEnd (h : Kept p v w) : w.dataEnd = v.dataEnd := by
  rw [View.dataEnd, View.dataEnd, h.tables]

theorem Kept.tableOf (h : Kept p v w) (hash : UInt32) : w.tableOf hash = v.tableOf hash := by
  rw [View.tableOf, View.tableOf, h.tables]

theorem Kept.inData (h : Kept p v w) {file value : Bytes} (hw : InData file w value) :
    InData file v value := by
  rw [InData, h.dataEnd, h.base] at hw
  exact hw

theorem Kept.failed {e : Error} {u : View} (h : Kept p v w) (hf : Failed p w e u) :
    Failed p v e u :=
  ⟨hf.1, h.trans hf.2⟩

def storedU32 (file : Bytes) (pos : Nat) : UInt32 := LittleEndian.toU32 (file.slice pos 4)

theorem take_fares {r : Reader} {pos first stop n : Nat} (hr : At p r pos) (hfirst : first ≤ pos)
    (hstop : pos + n ≤ stop) (hsize : stop ≤ p.size) (hwide : stop < UInt64.size)
    {F : Error → Reader → Prop} : Fares (take first stop n) r
      (fun b r' => b = p.toBytes.slice pos n ∧ At p r' (pos + n)) F := by
  apply fares_get_bind
  rw [hr.cursor, hr.account]
  apply fares_inside_bind hfirst hstop
  have hread : Fares (bare (Reader.take n)) r
      (fun b r' => b = p.toBytes.slice pos n ∧ At p r' (pos + n)) F :=
    fares_bare_of_gives (hr.take (by omega)) fun t ht => ⟨rfl, ht⟩
  apply hread.bind
  intro b t hb
  apply fares_fits64_bind (by omega)
  exact fares_pure hb

theorem pair_fares {r : Reader} {pos first stop : Nat} (hr : At p r pos) (hfirst : first ≤ pos)
    (hstop : pos + 8 ≤ stop) (hsize : stop ≤ p.size) (hwide : stop < UInt64.size)
    {F : Error → Reader → Prop} : Fares (pair first stop) r
      (fun x r' => x = (storedU32 p.toBytes pos, storedU32 p.toBytes (pos + 4)) ∧
        At p r' (pos + 8)) F := by
  have hu32 {r : Reader} {pos : Nat} (hr : At p r pos) (hfirst : first ≤ pos)
      (hstop : pos + 4 ≤ stop) : Fares (u32 first stop) r
        (fun m r' => m = storedU32 p.toBytes pos ∧ At p r' (pos + 4)) F := by
    apply Fares.bind (take_fares hr hfirst hstop hsize hwide)
    rintro b t ⟨rfl, ht⟩
    exact fares_pure ⟨rfl, ht⟩
  apply Fares.bind (hu32 hr hfirst (by omega))
  rintro m t ⟨rfl, ht⟩
  apply Fares.bind (hu32 ht (by omega) (by omega))
  rintro n u ⟨rfl, hu⟩
  exact fares_pure ⟨rfl, hu⟩

theorem onReader_fares {α : Type} {g : Nat → Nat → Guarded Reader α} {Q : α → Reader → Prop}
    {R : Reader → Prop} {F : Error → View → Prop} (hw : Reread v R w)
    (hg : ∀ r, R r → Fares (g v.base (v.base + v.length)) r Q fun _ _ => False) :
    Fares (onReader g) w (fun a t => Reread v (Q a) t) F := by
  obtain ⟨r, rfl, hr⟩ := hw
  have hread : Fares (g v.base (v.base + v.length)) (View.reader { v with reader := r }) Q
      fun _ _ => False := hg r hr
  apply fares_get_bind
  apply hread.focus
  · exact fun a t ht => ⟨t, rfl, ht⟩
  · exact fun e t ht => ht.elim

theorem seek_fares (h : Contained p v) {old pos : Nat} (hw : Reread v (At p · old) w)
    (hpos : pos ≤ v.length) {F : Error → View → Prop} :
    Fares (seek pos) w (fun _ t => Reread v (At p · (v.base + pos)) t) F := by
  have hbase : w.base = v.base := by
    obtain ⟨r, rfl, -⟩ := hw
    rfl
  have hwide := h.addressable
  have hlt : v.base + pos < UInt64.size := by omega
  apply fares_get_bind
  rw [hbase]
  apply fares_fits64_bind hlt
  have hgives : Gives (View.seek pos) w () (Reread v (At p · (v.base + pos))) := by
    apply Gives.bind (m := get) ⟨w, rfl, rfl⟩
    rintro t rfl
    rw [hbase]
    exact onReader_spec hw fun r hr => hr.seek hlt
  exact fares_bare_of_gives hgives fun t ht => ht

theorem recordLengths_fares (h : Contained p v) {old pos : Nat} (hw : Reread v (At p · old) w)
    (hpos : pos < UInt32.size) :
    Fares (recordLengths pos) w (fun x t => headerSize ≤ pos ∧
      pos + lengthsSize + x.1 + x.2 ≤ v.dataEnd ∧
      Reread v (At p · (v.base + pos + lengthsSize)) t) (Faulty p v) := by
  have hend : w.dataEnd = v.dataEnd := by
    obtain ⟨r, rfl, -⟩ := hw
    rfl
  have hle := h.dataEnd_le
  have hinside := h.inside
  have hwide := h.addressable
  have hmax : UInt32.size + UInt32.size + UInt32.size + 8 < UInt64.size := by decide
  have hlengths : lengthsSize = 8 := rfl
  apply fares_get_bind
  rw [hend]
  apply fares_fits64_bind (by omega)
  apply fares_ite
  · exact fun _ => fares_fail ⟨⟨_, rfl⟩, hw.moved⟩
  · intro hin
    apply Fares.bind (seek_fares h hw (by omega))
    intro _ t ht
    apply Fares.bind (onReader_fares ht fun r hr =>
      pair_fares hr (by omega) (by omega) hinside hwide)
    rintro ⟨key, value⟩ u hpair
    have hu : Reread v (At p · (v.base + pos + lengthsSize)) u := hpair.imp fun r hr => ⟨hr.1, hr.2.2⟩
    have hkey : key.toNat < UInt32.size := key.toNat_lt
    have hvalue : value.toNat < UInt32.size := value.toNat_lt
    apply fares_fits64_bind (by omega)
    apply fares_ite
    · exact fun _ => fares_fail ⟨⟨_, rfl⟩, hu.moved⟩
    · exact fun hshort => fares_pure ⟨by omega, by omega, hu⟩

theorem takeHere_fares (h : Contained p v) {pos n : Nat} (hw : Reread v (At p · (v.base + pos)) w)
    (hn : pos + n ≤ v.length) {F : Error → View → Prop} :
    Fares (onReader (take · · n)) w (fun b t => b = p.toBytes.slice (v.base + pos) n ∧
      Reread v (At p · (v.base + (pos + n))) t) F := by
  apply (onReader_fares hw fun r hr =>
    take_fares hr (Nat.le_add_right _ _) (by omega) h.inside h.addressable).mono
  · rintro b t ⟨r, rfl, hb, hr⟩
    rw [Nat.add_assoc] at hr
    exact ⟨hb, r, rfl, hr⟩
  · exact fun e t he => he

theorem matchesAhead_fares (h : Contained p v) {key : Bytes} {pos : Nat}
    (hw : Reread v (At p · (v.base + pos)) w) (hkey : pos + key.length ≤ v.length)
    {F : Error → View → Prop} : Fares (matchesAhead key) w (fun _ t => Moved p v t) F := by
  induction hn : key.length using Nat.strongRecOn generalizing key pos w with
  | _ n ih =>
      rw [matchesAhead]
      by_cases hk : key = []
      · rw [if_pos hk]
        exact fares_pure hw.moved
      · have hpos : 0 < key.length := List.length_pos_iff.mpr hk
        rw [if_neg hk]
        apply Fares.bind (takeHere_fares h hw (by omega))
        rintro stored t ⟨-, ht⟩
        apply fares_ite
        · exact fun _ => ih (key.drop 64).length (by simp; omega) ht (by simp; omega) rfl
        · exact fun _ => fares_pure ht.moved

theorem holdsKey_fares (h : Contained p v) {key : Bytes} {old pos : Nat}
    (hw : Reread v (At p · old) w) (hkey : pos + lengthsSize + key.length ≤ v.length)
    {F : Error → View → Prop} : Fares (holdsKey pos key) w (fun _ t => Moved p v t) F := by
  apply Fares.bind (seek_fares h hw (by omega))
  intro _ t ht
  exact matchesAhead_fares h ht hkey

structure Searched (p : Tape) (v : View) (c : Lookup) (x : Lookup × Option (Nat × Nat)) (w : View) :
    Prop where
  moved : Moved p v w
  onTable : OnTable v.length x.1
  table : x.1.table = c.table
  found : ∀ place ∈ x.2, c.probes < x.1.probes ∧ headerSize ≤ place.1 ∧
    place.1 + place.2 ≤ v.dataEnd

theorem Searched.ofNext {c : Lookup} {x : Lookup × Option (Nat × Nat)}
    (h : Searched p v c.advance x w) : Searched p v c x w := by
  refine ⟨h.moved, h.onTable, h.table, ?_⟩
  intro place hplace
  obtain ⟨hprobes, hplace⟩ := h.found place hplace
  exact ⟨Nat.lt_of_succ_lt hprobes, hplace⟩

theorem search_fares (h : Contained p v) {n : Nat} {c : Lookup} (hw : Moved p v w)
    (hc : OnTable v.length c) (hn : n ≤ c.table.slots - c.probes) :
    Fares (search n c) w (Searched p v c) (Faulty p v) := by
  induction n generalizing c w with
  | zero => exact fares_pure ⟨hw, hc, rfl, by simp⟩
  | succ n ih =>
      have hp : c.probes < c.table.slots := by omega
      have hslot : c.slot + 8 ≤ v.length := hc.slot_le hp
      have hadvance := hc.advance hp
      have hstop : c.table.start + c.table.slots * 8 ≤ v.length := hc.stop
      have hsmall := h.small
      have hnext : n ≤ c.advance.table.slots - c.advance.probes := by
        change n ≤ c.table.slots - (c.probes + 1)
        omega
      have hgo {t : View} (ht : Moved p v t) :
          Fares (search n c.advance) t (Searched p v c) (Faulty p v) :=
        (ih ht hadvance hnext).mono (fun _ _ hs => hs.ofNext) fun _ _ hf => hf
      obtain ⟨old, hold⟩ := hw.rereads
      rw [search]
      apply Fares.bind (seek_fares h hold (by omega))
      intro _ t ht
      apply Fares.bind (onReader_fares ht fun r hr =>
        pair_fares hr (by omega) (by omega) h.inside h.addressable)
      rintro ⟨hash, pos⟩ u hpair
      have hu : Reread v (At p · (v.base + c.slot + 8)) u := hpair.imp fun r hr => ⟨hr.1, hr.2.2⟩
      have hmoved : Moved p v u := hu.moved
      apply fares_ite
      · -- an empty slot ends the search
        exact fun _ => fares_pure ⟨hmoved, hc.passed, rfl, by simp⟩
      intro _
      apply fares_fits32_bind (by omega)
      apply fares_fits32_bind (by change c.slot + 8 < _; omega)
      refine fares_ite (fun _ => ?_) fun _ => hgo hmoved
      apply Fares.bind (recordLengths_fares h hu pos.toNat_lt)
      rintro ⟨key, value⟩ x ⟨hfirst, hlast, hx⟩
      have hend := h.dataEnd_le
      refine fares_ite (fun hlen => ?_) fun _ => hgo hx.moved
      apply Fares.bind (holdsKey_fares h hx (by omega))
      intro held y hy
      refine fares_ite (fun _ => ?_) fun _ => hgo hy
      have hmax : UInt32.size < UInt64.size := by decide
      apply fares_fits64_bind (by omega)
      refine fares_pure ⟨hy, hadvance, rfl, ?_⟩
      rintro place ⟨⟩
      exact ⟨Nat.lt_succ_self _, by omega, hlast⟩

theorem inData_slice (h : Contained p v) {start n : Nat} (hfirst : headerSize ≤ start)
    (hlast : start + n ≤ v.dataEnd) : InData p.toBytes v (p.toBytes.slice (v.base + start) n) := by
  have hend := h.dataEnd_le
  have hinside := h.inside
  have hsize : p.toBytes.length = p.size := rfl
  have hlen : (p.toBytes.slice (v.base + start) n).length = n := by
    rw [length_slice]
    omega
  exact ⟨start, hfirst, by rwa [hlen], by rw [hlen]⟩

theorem Contained.length_lt (h : Contained p v) {file value : Bytes} (hv : InData file v value) :
    value.length < UInt32.size := by
  obtain ⟨start, -, hlast, -⟩ := hv
  have hend := h.dataEnd_le
  have hsmall := h.small
  omega

theorem Contained.firstSlot_lt (h : Contained p v) (hash : UInt32)
    (hslots : (v.tableOf hash).slots ≠ 0) :
    firstSlot hash (v.tableOf hash).slots < (v.tableOf hash).slots := by
  have hstop : (v.tableOf hash).start + (v.tableOf hash).slots * 8 ≤ v.length :=
    h.tableOf_stop_le hash
  have hsmall := h.small
  exact BlockStore.firstSlot_lt hash (ofNat_ne_zero (Nat.pos_of_ne_zero hslots) (by omega))

theorem findStart_fares (h : Contained p v) (key : Bytes) {F : Error → View → Prop} :
    Fares (findStart key) v (fun _ t => t = v.findStart key) F := by
  have hstop := h.tableOf_stop_le (KeyHash.hash key)
  have hsmall := h.small
  apply fares_get_bind
  apply fares_ite
  · exact fun _ => rfl
  · intro hzero
    have hlt := h.firstSlot_lt (KeyHash.hash key) hzero
    have hstop8 : (v.tableOf (KeyHash.hash key)).start +
        (v.tableOf (KeyHash.hash key)).slots * 8 ≤ v.length := hstop
    apply fares_fits32_bind
    · change (v.tableOf (KeyHash.hash key)).start +
        firstSlot (KeyHash.hash key) (v.tableOf (KeyHash.hash key)).slots * 8 < UInt32.size
      omega
    · exact rfl

theorem kept_findStart (h : Contained p v) (key : Bytes) : Kept p v (v.findStart key) := by
  apply h.keptSelf.withLookup
  rintro c hc
  cases hc
  refine ⟨h.tableOf_stop_le _, Nat.zero_le _, ?_⟩
  intro hpos
  have hslots : (v.tableOf (KeyHash.hash key)).slots ≠ 0 := Nat.ne_of_gt hpos
  refine ⟨firstSlot (KeyHash.hash key) (v.tableOf (KeyHash.hash key)).slots, ?_, ?_⟩
  · exact h.firstSlot_lt _ hslots
  · exact if_neg hslots

theorem remaining_findStart (v : View) (key : Bytes) :
    remaining (v.findStart key) = (v.tableOf (KeyHash.hash key)).slots := Nat.sub_zero _

theorem findNext_fares (h : Contained p v) :
    Fares findNext v (fun found t => Kept p v t ∧
      ∀ value ∈ found, InData p.toBytes v value ∧ remaining t < remaining v) (Failed p v) := by
  apply fares_get_bind
  cases hlookup : v.lookup with
  | none => exact fares_pure ⟨h.keptSelf, by simp⟩
  | some c =>
      have hc := h.lookup c hlookup
      have hidle : Contained p { v with lookup := none } := h.withLookup (by simp)
      have hkept : Kept p v { v with lookup := none } := h.keptSelf.withLookup (by simp)
      have hstop := hc.stop
      have hsmall := h.small
      apply fares_modify_bind
      apply fares_fits32_bind (by omega)
      apply Fares.bind ((search_fares hidle hidle.movedSelf hc (Nat.le_refl _)).failing
        fun e t hf => ⟨hf.1, hkept.trans (hidle.kept hf.2)⟩)
      rintro ⟨c', found⟩ t ⟨hmoved, hon, htable, hfound⟩
      apply fares_modify_bind
      have hnext : Kept p v { t with lookup := some c' } := by
        apply (hkept.trans (hidle.kept hmoved)).withLookup
        rintro d hd
        cases hd
        exact hon
      cases found with
      | none => exact fares_pure ⟨hnext, by simp⟩
      | some place =>
          obtain ⟨pos, length⟩ := place
          obtain ⟨hprobes, hfirst, hlast⟩ := hfound (pos, length) rfl
          have hend := hnext.contained.dataEnd_le
          rw [hnext.dataEnd] at hend
          have hlength := hnext.length
          have hwithin : pos + length ≤ v.dataEnd := hlast
          obtain ⟨old, hold⟩ := hnext.contained.movedSelf.rereads
          apply Fares.bind (seek_fares hnext.contained hold (by omega))
          intro _ x hx
          apply Fares.bind (takeHere_fares hnext.contained hx (by omega))
          rintro value y ⟨rfl, hy⟩
          refine fares_pure ⟨hnext.trans (hnext.contained.kept hy.moved), ?_⟩
          rintro _ ⟨⟩
          constructor
          · exact hnext.inData (inData_slice hnext.contained hfirst (by rwa [hnext.dataEnd]))
          · have hy' : remaining y = c'.table.slots - c'.probes := by
              obtain ⟨r, rfl, -⟩ := hy
              rfl
            have hv' : remaining v = c.table.slots - c.probes := by rw [remaining, hlookup]
            have hprobes' : c.probes < c'.probes := hprobes
            have hle : c'.probes ≤ c'.table.slots := hon.probes
            have hslots : c'.table.slots = c.table.slots := congrArg _ htable
            omega

theorem findRest_fares (h : Contained p v) (n : Nat) :
    Fares (findRest n) v (fun values t => Kept p v t ∧ values.length ≤ remaining v ∧
      ∀ value ∈ values, InData p.toBytes v value) (Failed p v) := by
  induction n generalizing v with
  | zero => exact fares_pure ⟨h.keptSelf, Nat.zero_le _, by simp⟩
  | succ n ih =>
      apply Fares.bind (findNext_fares h)
      rintro found t ⟨ht, hfound⟩
      cases found with
      | none => exact fares_pure ⟨ht, Nat.zero_le _, by simp⟩
      | some value =>
          obtain ⟨hvalue, hless⟩ := hfound value rfl
          apply Fares.bind ((ih ht.contained).failing fun e u hu => ht.failed hu)
          rintro rest u ⟨hu, hlen, hrest⟩
          refine fares_pure ⟨ht.trans hu, Nat.lt_of_le_of_lt hlen hless, ?_⟩
          intro x hx
          cases hx with
          | head => exact hvalue
          | tail _ hx => exact ht.inData (hrest x hx)

theorem find_fares (h : Contained p v) (key : Bytes) :
    Fares (find key) v (fun found t => Kept p v t ∧ ∀ value ∈ found, InData p.toBytes v value)
      (Failed p v) := by
  have hkept := kept_findStart h key
  apply Fares.bind (findStart_fares h key)
  rintro _ t rfl
  apply (findNext_fares hkept.contained).mono
  · exact fun found t ht => ⟨hkept.trans ht.1, fun x hx => hkept.inData (ht.2 x hx).1⟩
  · exact fun e t ht => hkept.failed ht

theorem findAll_fares (h : Contained p v) (key : Bytes) :
    Fares (findAll key) v (fun values t => Kept p v t ∧
      values.length ≤ (v.tableOf (KeyHash.hash key)).slots ∧
      ∀ value ∈ values, InData p.toBytes v value) (Failed p v) := by
  have hkept := kept_findStart h key
  apply Fares.bind (findStart_fares h key)
  rintro _ t rfl
  apply fares_get_bind
  apply (findRest_fares hkept.contained _).mono
  · rintro values t ⟨ht, hlen, hvalues⟩
    rw [remaining_findStart] at hlen
    exact ⟨hkept.trans ht, hlen, fun x hx => hkept.inData (hvalues x hx)⟩
  · exact fun e t ht => hkept.failed ht

def RecordIn (file : Bytes) (v : View) (r : Record) : Prop :=
  InData file v r.key ∧ InData file v r.value

theorem recordAt_fares (h : Contained p v) (hw : Moved p v w) (pos : Nat) :
    Fares (recordAt pos) w (fun r t => Moved p v t ∧ RecordIn p.toBytes v r ∧
      pos + lengthsSize + r.key.length + r.value.length ≤ v.dataEnd) (Faulty p v) := by
  apply fares_ite
  · exact fun _ => fares_fail ⟨⟨_, rfl⟩, hw⟩
  · intro haddr
    obtain ⟨old, hold⟩ := hw.rereads
    have hend := h.dataEnd_le
    have hinside := h.inside
    have hsize : p.toBytes.length = p.size := rfl
    apply Fares.bind (recordLengths_fares h hold (by omega))
    rintro ⟨key, value⟩ t ⟨hfirst, hlast, ht⟩
    have hlast : pos + lengthsSize + key + value ≤ v.dataEnd := hlast
    rw [Nat.add_assoc] at ht
    apply Fares.bind (takeHere_fares h ht (by omega))
    rintro _ u ⟨rfl, hu⟩
    apply Fares.bind (takeHere_fares h hu (by omega))
    rintro _ x ⟨rfl, hx⟩
    refine fares_pure ⟨hx.moved, ⟨?_, ?_⟩, ?_⟩
    · exact inData_slice h (by omega) (by omega)
    · exact inData_slice h (by omega) (by omega)
    · simp only [length_slice]
      omega

def Listed (file : Bytes) (v : View) : Except Error Record → Prop
  | .ok r => RecordIn file v r
  | .error e => IsFormat e

theorem scan_fares (h : Contained p v) (hw : Moved p v w) (n pos : Nat)
    {F : Error → View → Prop} : Fares (scan n pos) w (fun found t => Moved p v t ∧
      found.length ≤ n ∧ ∀ x ∈ found, Listed p.toBytes v x) F := by
  induction n generalizing pos w with
  | zero => exact fares_pure ⟨hw, Nat.le_refl _, by simp⟩
  | succ n ih =>
      apply fares_get_bind
      refine fares_ite (fun _ => fares_pure ⟨hw, Nat.zero_le _, by simp⟩) fun _ => ?_
      have hread : Fares (attemptGuarded (recordAt pos)) w (fun found t => Moved p v t ∧
          Listed p.toBytes v found ∧ ∀ r, found = .ok r →
            pos + lengthsSize + r.key.length + r.value.length ≤ v.dataEnd) F := by
        apply (recordAt_fares h hw pos).attempt
        · rintro r t ⟨ht, hr, hlast⟩
          refine ⟨ht, hr, ?_⟩
          rintro _ ⟨⟩
          exact hlast
        · exact fun e t ht => ⟨ht.2, ht.1, by simp⟩
      apply hread.bind
      rintro (e | r) t ⟨ht, hlisted, hlast⟩
      · refine fares_pure ⟨ht, by simp, ?_⟩
        simpa using hlisted
      · have hle := hlast r rfl
        have hdata := h.dataEnd_le
        have hwide := h.addressable
        apply fares_fits64_bind (by omega)
        apply (ih ht _).bind
        rintro rest u ⟨hu, hlen, hrest⟩
        refine fares_pure ⟨hu, Nat.succ_le_succ hlen, ?_⟩
        intro x hx
        cases hx with
        | head => exact hlisted
        | tail _ hx => exact hrest x hx

end Concordance.Proofs.Containment
