import Mathlib.Logic.Basic
import Concordance.Positioned.Reader
import Concordance.Proofs.Outcomes

namespace Concordance.Proofs.Cursors

open Positioned Outcomes

theorem length_slice (b : Bytes) (start n : Nat) :
    (b.slice start n).length = min n (b.length - start) := by
  simp [Bytes.slice]

theorem slice_zero (b : Bytes) (start : Nat) : b.slice start 0 = [] := by simp [Bytes.slice]

theorem slice_add (b : Bytes) (start m n : Nat) :
    b.slice start (m + n) = b.slice start m ++ b.slice (start + m) n := by
  simp only [Bytes.slice]
  rw [List.take_add, List.drop_drop]

theorem take_slice (b : Bytes) (start m n : Nat) :
    (b.slice start n).take m = b.slice start (min m n) := by
  simp [Bytes.slice, List.take_take]

theorem drop_slice (b : Bytes) (start m n : Nat) :
    (b.slice start n).drop m = b.slice (start + m) (n - m) := by
  simp [Bytes.slice, List.drop_take, List.drop_drop]

theorem slice_min (b : Bytes) (start n : Nat) :
    b.slice start (min n (b.length - start)) = b.slice start n := by
  simp only [Bytes.slice]
  rw [List.take_eq_take_iff]
  simp

def Lies (b : Bytes) (pos : Nat) (chunk : Bytes) : Prop :=
  ∃ before behind, b = before ++ (chunk ++ behind) ∧ before.length = pos

theorem Lies.slice_eq {b chunk : Bytes} {pos : Nat} (h : Lies b pos chunk) :
    b.slice pos chunk.length = chunk := by
  obtain ⟨before, behind, rfl, rfl⟩ := h
  simp [Bytes.slice]

theorem Lies.le_length {b chunk : Bytes} {pos : Nat} (h : Lies b pos chunk) :
    pos + chunk.length ≤ b.length := by
  obtain ⟨before, behind, rfl, rfl⟩ := h
  simp

theorem lies_self (b : Bytes) : Lies b 0 b := ⟨[], [], by simp, rfl⟩

theorem Lies.trans {a b c : Bytes} {m n : Nat} (hb : Lies a m b) (hc : Lies b n c) :
    Lies a (m + n) c := by
  obtain ⟨before, behind, rfl, rfl⟩ := hb
  obtain ⟨before', behind', rfl, rfl⟩ := hc
  exact ⟨before ++ before', behind' ++ behind, by simp, by simp⟩

theorem lies_append_left (b c : Bytes) : Lies (b ++ c) 0 b := ⟨[], c, rfl, rfl⟩

theorem lies_append_right (b c : Bytes) : Lies (b ++ c) b.length c := ⟨b, [], by simp, rfl⟩

theorem Lies.left {b c d : Bytes} {pos : Nat} (h : Lies b pos (c ++ d)) : Lies b pos c :=
  h.trans (lies_append_left c d)

theorem Lies.right {b c d : Bytes} {pos : Nat} (h : Lies b pos (c ++ d)) :
    Lies b (pos + c.length) d :=
  h.trans (lies_append_right c d)

/-- What has been fetched and not handed out lies just before the place of the next block. -/
structure Consistent (i : BufferedInput) : Prop where
  fits : i.ahead.length ≤ i.offset
  ahead : i.ahead.toBytes = i.content.toBytes.slice i.position i.ahead.length

theorem toBytes_empty_window {w : Window} (h : w.length = 0) : w.toBytes = [] := by
  apply List.eq_nil_of_length_eq_zero
  rw [Window.length_toBytes, h]

theorem consistent_of_empty {i : BufferedInput} (h : i.ahead.length = 0) : Consistent i :=
  ⟨by omega, by rw [toBytes_empty_window h, h, slice_zero]⟩

theorem fetch_toBytes (n : Nat) (i : BufferedInput) :
    (i.fetch n).1.toBytes = i.content.toBytes.slice i.offset n := by
  rw [BufferedInput.fetch, Window.toBytes_ofPart, Packed.part_eq_slice]

theorem length_fetch (n : Nat) (i : BufferedInput) :
    (i.fetch n).1.length = min n (i.content.size - i.offset) := by
  rw [← Window.length_toBytes, fetch_toBytes, length_slice]
  rfl

structure HandsOut (i : BufferedInput) (k : Nat) (got : Bytes × BufferedInput) : Prop where
  bytes : got.1 = i.content.toBytes.slice i.position k
  length : got.1.length = k
  consistent : Consistent got.2
  content : got.2.content = i.content
  size : got.2.size = i.size
  position : got.2.position = i.position + k

theorem HandsOut.nil {i : BufferedInput} (h : Consistent i) : HandsOut i 0 ([], i) :=
  ⟨(slice_zero _ _).symm, rfl, h, rfl, rfl, rfl⟩

theorem HandsOut.append {i j j' : BufferedInput} {k m : Nat} {b c : Bytes}
    (h : HandsOut i k (b, j)) (h' : HandsOut j m (c, j')) : HandsOut i (k + m) (b ++ c, j') where
  bytes := by
    have hb : b = i.content.toBytes.slice i.position k := h.bytes
    have hc : c = j.content.toBytes.slice j.position m := h'.bytes
    have hcontent : j.content = i.content := h.content
    have hposition : j.position = i.position + k := h.position
    rw [hcontent, hposition] at hc
    rw [slice_add, ← hb, ← hc]
  length := by
    have hb : b.length = k := h.length
    have hc : c.length = m := h'.length
    rw [List.length_append, hb, hc]
  consistent := h'.consistent
  content := h'.content.trans h.content
  size := h'.size.trans h.size
  position := by
    have hj : j.position = i.position + k := h.position
    rw [h'.position, hj, Nat.add_assoc]

theorem HandsOut.le {i : BufferedInput} {k : Nat} {got : Bytes × BufferedInput}
    (h : HandsOut i k got) : k ≤ i.content.size - i.position := by
  have hlen := congrArg List.length h.bytes
  rw [h.length, length_slice, Packed.length_toBytes] at hlen
  omega

theorem take_ahead_spec {i : BufferedInput} (h : Consistent i) (n : Nat) :
    HandsOut i (min n i.ahead.length) (i.ahead.take n, { i with ahead := i.ahead.drop n }) := by
  have hfits := h.fits
  have hlen : (i.ahead.drop n).length = i.ahead.length - n := by
    simp only [Window.length, Window.drop]
    omega
  have hpos : ({ i with ahead := i.ahead.drop n } : BufferedInput).position =
      i.position + min n i.ahead.length := by
    simp only [BufferedInput.position, hlen]
    omega
  have hbytes : i.ahead.take n = i.content.toBytes.slice i.position (min n i.ahead.length) := by
    rw [Window.take_eq, h.ahead, take_slice]
  refine ⟨hbytes, ?_, ⟨?_, ?_⟩, rfl, rfl, hpos⟩
  · simp only [Window.take_eq, List.length_take, Window.length_toBytes]
  · simp only [hlen]
    omega
  · rw [hpos, Window.toBytes_drop, h.ahead, drop_slice]
    simp only [hlen]
    by_cases hn : n ≤ i.ahead.length
    · rw [Nat.min_eq_left hn]
    · rw [Nat.sub_eq_zero_of_le (by omega), slice_zero, slice_zero]

theorem consistent_fetch {i : BufferedInput} (ha : i.ahead.length = 0) (n : Nat) :
    Consistent { (i.fetch n).2 with ahead := (i.fetch n).1 } ∧
      ({ (i.fetch n).2 with ahead := (i.fetch n).1 } : BufferedInput).position = i.position := by
  have hl := length_fetch n i
  have hpos : i.position = i.offset := by simp [BufferedInput.position, ha]
  have hoffset : (i.fetch n).2.offset = i.offset + (i.fetch n).1.length := rfl
  have hposition : ({ (i.fetch n).2 with ahead := (i.fetch n).1 } : BufferedInput).position =
      i.position := by
    rw [BufferedInput.position, hpos]
    dsimp only
    omega
  refine ⟨⟨?_, ?_⟩, hposition⟩
  · dsimp only
    omega
  · rw [hposition, hpos]
    dsimp only
    rw [hl, fetch_toBytes]
    exact (slice_min i.content.toBytes i.offset n).symm

theorem fetch_spec {i : BufferedInput} (ha : i.ahead.length = 0) (n : Nat) :
    HandsOut i (min n (i.content.size - i.position)) ((i.fetch n).1.toBytes, (i.fetch n).2) := by
  have hl := length_fetch n i
  have hpos : i.position = i.offset := by simp [BufferedInput.position, ha]
  refine ⟨?_, ?_, consistent_of_empty ha, rfl, rfl, ?_⟩
  · rw [fetch_toBytes, hpos]
    exact (slice_min i.content.toBytes i.offset n).symm
  · rw [Window.length_toBytes, hl, hpos]
  · simp only [BufferedInput.position, BufferedInput.fetch, ha] at hl ⊢
    omega

theorem readOnce_spec {i : BufferedInput} (h : Consistent i) (n : Nat) :
    ∃ k, HandsOut i k (i.readOnce n) ∧ k ≤ n ∧ (0 < n → i.position < i.content.size → 0 < k) := by
  by_cases ha : i.ahead.length = 0
  · by_cases hc : i.capacity ≤ n
    · have hread : i.readOnce n = ((i.fetch n).1.toBytes, (i.fetch n).2) := by
        simp [BufferedInput.readOnce, ha, hc]
      rw [hread]
      exact ⟨_, fetch_spec ha n, by omega, by omega⟩
    · -- a whole block is fetched and becomes what is ahead
      obtain ⟨hj, hposition⟩ := consistent_fetch ha i.capacity
      have hread : i.readOnce n = ((i.fetch i.capacity).1.take n,
          { (i.fetch i.capacity).2 with ahead := (i.fetch i.capacity).1.drop n }) := by
        simp [BufferedInput.readOnce, ha, hc]
      have hl := length_fetch i.capacity i
      have hpos : i.position = i.offset := by simp [BufferedInput.position, ha]
      obtain ⟨hbytes, hlength, hcons, hcontent, hsize, hmoved⟩ := take_ahead_spec hj n
      rw [hposition] at hbytes hmoved
      rw [hread]
      refine ⟨_, ⟨hbytes, hlength, hcons, hcontent, hsize, hmoved⟩, by omega, ?_⟩
      dsimp only
      omega
  · have hread : i.readOnce n = (i.ahead.take n, { i with ahead := i.ahead.drop n }) := by
      simp [BufferedInput.readOnce, ha]
    rw [hread]
    exact ⟨_, take_ahead_spec h n, by omega, by omega⟩

theorem portion_add_fits (r : Room) (n : Nat) (h : r.used ≤ r.size) (hn : n ≤ r.portion) :
    (r.add n).used ≤ (r.add n).size ∧ (0 < r.most → 0 < (r.add n).most) := by
  unfold Room.add
  unfold Room.portion at hn
  split
  · refine ⟨?_, id⟩
    dsimp only
    omega
  · rename_i hs
    rw [if_neg hs] at hn
    refine ⟨?_, ?_⟩
    · dsimp only
      omega
    · intro hm
      dsimp only
      split <;> omega

theorem grow_fits (r : Room) (h : r.used ≤ r.size) :
    r.grow.used ≤ r.grow.size ∧ r.grow.most = r.most := by
  unfold Room.grow
  split
  · refine ⟨?_, rfl⟩
    dsimp only
    omega
  · exact ⟨h, rfl⟩

theorem readInto_spec {r : Room} {i : BufferedInput} (h : Consistent i) (n : Nat)
    (hm : 0 < r.most) (hr : r.used ≤ r.size) :
    HandsOut i (min n (i.content.size - i.position)) (i.readInto r n) := by
  induction n using Nat.strongRecOn generalizing r i with
  | _ n ih =>
      rw [BufferedInput.readInto]
      by_cases hn : n = 0
      · rw [if_pos hn, hn, Nat.zero_min]
        exact HandsOut.nil h
      obtain ⟨hg, hgm⟩ := grow_fits r hr
      have hp := Room.portion_grow_pos hm hr
      obtain ⟨k, hgot, hk, hpos⟩ := readOnce_spec h (min r.grow.portion n)
      have hle := hgot.le
      rw [if_neg hn]
      dsimp only
      by_cases hnil : (i.readOnce (min r.grow.portion n)).1 = []
      · have hzero : k = 0 := by rw [← hgot.length, hnil]; rfl
        have hend : min n (i.content.size - i.position) = k := by
          by_cases hlt : i.position < i.content.size
          · have := hpos (by omega) hlt
            omega
          · omega
        rw [if_pos hnil, hend, ← hnil]
        exact hgot
      · rw [if_neg hnil]
        have hpositive : 0 < k := by
          rw [← hgot.length]
          exact List.length_pos_iff.mpr hnil
        obtain ⟨hfits, hmost⟩ := portion_add_fits r.grow k hg (by omega)
        have hmore := ih (n - k) (by omega) hgot.consistent (hmost (by omega)) hfits
        rw [hgot.content, hgot.position] at hmore
        have hall := hgot.append hmore
        have hsum : k + min (n - k) (i.content.size - (i.position + k)) =
            min n (i.content.size - i.position) := by omega
        rw [hsum] at hall
        rw [hgot.length]
        exact hall

/-- What an input reads: bytes in memory, or those of a file with a number. -/
structure Tape where
  content : Packed
  file : Option Nat

namespace Tape

def toBytes (p : Tape) : Bytes := p.content.toBytes

def size (p : Tape) : Nat := p.content.size

def ofBytes (b : Bytes) : Tape := ⟨.ofBytes b, none⟩

theorem length_toBytes (p : Tape) : p.toBytes.length = p.size := rfl

theorem toBytes_ofBytes (b : Bytes) : (ofBytes b).toBytes = b := Packed.toBytes_ofBytes b

theorem size_ofBytes (b : Bytes) : (ofBytes b).size = b.length := by
  rw [← length_toBytes, toBytes_ofBytes]

end Tape

/-- The input reads the tape, and nothing it has fetched before contradicts it. -/
def Over (p : Tape) : Input → Prop
  | .snapshot i => i.data = p.content ∧ p.file = none
  | .buffered (.file k) i =>
      i.content = p.content ∧ i.size = p.size ∧ Consistent i ∧ p.file = some k
  | .buffered .directory _ => False
  | .mapped k i => i.content = p.content ∧ i.size = p.size ∧ p.file = some k

variable {p : Tape} {i : Input}

theorem over_ofBytes (b : Bytes) : Over (.ofBytes b) (.ofBytes b) := ⟨rfl, rfl⟩

theorem Over.size_eq (h : Over p i) : i.size = p.size := by
  cases i with
  | snapshot i => exact congrArg ByteArray.size h.1
  | buffered node i =>
      cases node with
      | file k => exact h.2.1
      | directory => exact h.elim
  | mapped k i => exact h.2.1

theorem Over.clone (h : Over p i) : Over p i.clone := by
  cases i with
  | snapshot i => exact h
  | buffered node i =>
      cases node with
      | file k => exact ⟨h.1, congrArg ByteArray.size h.1, consistent_of_empty rfl, h.2.2.2⟩
      | directory => exact h.elim
  | mapped k i => exact h

theorem Over.seek_of_some (h : Over p i) {goal : Seek} {n : Nat}
    (hgoal : goal.offset? p.size i.position = some n) (hn : n < UInt64.size) :
    ∃ j, i.seek goal = .ok j ∧ Over p j ∧ j.position = n := by
  cases i with
  | snapshot i =>
      have hoffset : goal.offset? i.data.size i.position = some n := by rwa [h.1]
      refine ⟨.snapshot { i with position := n }, ?_, h, rfl⟩
      simp [Input.seek, SnapshotInput.seek, hoffset, hn, mapError_ok, Functor.map, Except.map]
  | buffered node i =>
      cases node with
      | file k =>
          have hoffset : goal.offset? i.content.size i.position = some n := by rwa [h.1]
          refine ⟨.buffered (.file k) { i with offset := n, ahead := .empty }, ?_,
            ⟨h.1, h.2.1, consistent_of_empty rfl, h.2.2.2⟩, rfl⟩
          simp [Input.seek, BufferedInput.seek, hoffset, mapError_ok, Functor.map, Except.map]
      | directory => exact h.elim
  | mapped k i =>
      have hoffset : goal.offset? i.size i.position = some n := by rwa [h.2.1]
      refine ⟨.mapped k { i with position := n }, ?_, h, rfl⟩
      simp [Input.seek, MappedInput.seek, hoffset, mapError_ok, Functor.map, Except.map]

theorem Over.seek_of_none (h : Over p i) {goal : Seek}
    (hgoal : goal.offset? p.size i.position = none) : ∃ e, i.seek goal = .error e := by
  cases i with
  | snapshot i =>
      have hoffset : goal.offset? i.data.size i.position = none := by rwa [h.1]
      refine ⟨.io .seekOutOfRange, ?_⟩
      simp [Input.seek, SnapshotInput.seek, hoffset, mapError_error, Functor.map, Except.map]
  | buffered node i =>
      cases node with
      | file k =>
          have hoffset : goal.offset? i.content.size i.position = none := by rwa [h.1]
          refine ⟨.io .seekBeforeStart, ?_⟩
          simp [Input.seek, BufferedInput.seek, hoffset, mapError_error, Functor.map, Except.map]
      | directory => exact h.elim
  | mapped k i =>
      have hoffset : goal.offset? i.size i.position = none := by rwa [h.2.1]
      refine ⟨.io .seekBeforeStart, ?_⟩
      simp [Input.seek, MappedInput.seek, hoffset, mapError_error, Functor.map, Except.map]

theorem Over.seek (h : Over p i) {n : Nat} (hn : n < UInt64.size) :
    ∃ j, i.seek (.start n) = .ok j ∧ Over p j ∧ j.position = n := by
  have htarget : ¬ (Seek.start n).target p.size i.position < 0 :=
    Int.not_lt.mpr (Int.natCast_nonneg n)
  apply h.seek_of_some _ hn
  simp only [Seek.offset?, if_neg htarget]
  rfl

theorem Over.readInto (h : Over p i) {r : Room} {n : Nat} (hm : 0 < n → 0 < r.most)
    (hr : r.used ≤ r.size) : ∃ j, i.readInto r n = (.ok (p.toBytes.slice i.position n), j) ∧
      Over p j ∧ j.position = i.position + min n (p.size - i.position) := by
  simp only [Tape.size, Tape.toBytes]
  cases i with
  | snapshot i =>
      obtain ⟨hd, hfile⟩ := h
      refine ⟨.snapshot (i.read n).2, ?_, ⟨hd, hfile⟩, ?_⟩
      · simp only [Input.readInto, SnapshotInput.read, Packed.part_eq_slice, hd, Input.position]
      · simp only [Input.position, SnapshotInput.read, Packed.part_eq_slice, hd, length_slice,
          Packed.length_toBytes]
  | buffered node i =>
      cases node with
      | file k =>
          obtain ⟨hc, hs, hcons, hfile⟩ := h
          by_cases hn : n = 0
          · subst hn
            refine ⟨.buffered (.file k) i, ?_, ⟨hc, hs, hcons, hfile⟩, by simp⟩
            simp [Input.readInto, BufferedInput.readInto, slice_zero]
          · obtain ⟨hgot, -, hcons', hcontent, hsize, hmoved⟩ :=
              readInto_spec hcons n (hm (Nat.pos_of_ne_zero hn)) hr
            rw [hc] at hgot hmoved hcontent
            rw [← Packed.length_toBytes, slice_min] at hgot
            refine ⟨.buffered (.file k) (i.readInto r n).2, ?_,
              ⟨hcontent, hsize.trans hs, hcons', hfile⟩, hmoved⟩
            simp only [Input.readInto, hgot, Input.position]
      | directory => exact h.elim
  | mapped k i =>
      obtain ⟨hc, hs, hfile⟩ := h
      have hs' : i.size = p.content.size := hs
      have hpart : p.content.toBytes.slice i.position (min n (p.content.size - i.position)) =
          p.content.toBytes.slice i.position n := slice_min _ _ _
      have hread : (i.read n).1 = p.content.toBytes.slice i.position n := by
        rw [MappedInput.read, Bytes.extendTo, Packed.part_eq_slice, hc, hs', hpart, length_slice,
          Packed.length_toBytes, Nat.sub_self, List.replicate_zero, List.append_nil]
      refine ⟨.mapped k (i.read n).2, ?_, ⟨hc, hs, hfile⟩, ?_⟩
      · simp only [Input.readInto, hread, Input.position]
      · simp only [Input.position, MappedInput.read, hs']

theorem Over.readExact (h : Over p i) (n : Nat) :
    ∃ j, i.readExact n = (if n ≤ p.size - i.position then .ok (p.toBytes.slice i.position n)
        else .error (.io .shortRead), j) ∧
      Over p j ∧ j.position = i.position + min n (p.size - i.position) := by
  obtain ⟨j, hread, hover, hpos⟩ := h.readInto (r := .ofSize n) (n := n) id (Nat.zero_le _)
  have hwhole : (p.toBytes.slice i.position n).length = n ↔ n ≤ p.size - i.position := by
    rw [length_slice, Tape.length_toBytes]
    omega
  refine ⟨j, ?_, hover, hpos⟩
  simp only [Input.readExact, hread]
  exact congrArg (·, _) (if_congr hwhole rfl rfl)

theorem Over.refresh_eq (h : Over p i) {content : Nat → Packed}
    (hfile : ∀ k, p.file = some k → content k = p.content) : i.refresh content = i := by
  cases i with
  | snapshot i => rfl
  | buffered node i =>
      cases node with
      | file k =>
          obtain ⟨hc, -, -, hk⟩ := h
          rw [Input.refresh, hfile k hk, ← hc]
      | directory => rfl
  | mapped k i =>
      obtain ⟨hc, -, hk⟩ := h
      rw [Input.refresh, hfile k hk, ← hc]

structure At (p : Tape) (r : Reader) (pos : Nat) : Prop where
  tape : Over p r.input
  cursor : r.input.position = pos
  account : r.position = pos

variable {r : Reader} {pos : Nat}

theorem At.seek (h : At p r pos) {n : Nat} (hn : n < UInt64.size) :
    Gives (Reader.seek n) r () (At p · n) := by
  by_cases he : n = r.position
  · refine ⟨r, by simp [Reader.seek, he], ?_⟩
    rw [he, h.account]
    exact h
  · obtain ⟨j, hj, hover, hpos⟩ := h.tape.seek hn
    exact ⟨⟨j, n⟩, by simp [Reader.seek, he, hj], hover, hpos, rfl⟩

theorem At.take (h : At p r pos) {n : Nat} (hn : pos + n ≤ p.size) :
    Gives (Reader.take n) r (p.toBytes.slice pos n) (At p · (pos + n)) := by
  obtain ⟨j, hj, hover, hpos⟩ := h.tape.readExact n
  rw [h.cursor] at hj hpos
  rw [if_pos (by omega)] at hj
  refine ⟨⟨j, r.position + n⟩, by simp [Reader.take, hj], hover, ?_, ?_⟩
  · rw [hpos]
    omega
  · rw [h.account]

theorem At.takeChunk (h : At p r pos) {chunk : Bytes} (hc : Lies p.toBytes pos chunk) :
    Gives (Reader.take chunk.length) r chunk (At p · (pos + chunk.length)) := by
  have ht := h.take hc.le_length
  rw [hc.slice_eq] at ht
  exact ht

theorem At.u32 (h : At p r pos) {m : UInt32} (hm : Lies p.toBytes pos (LittleEndian.u32 m)) :
    Gives Reader.u32 r m (At p · (pos + 4)) := by
  have ht := (h.takeChunk hm).map LittleEndian.toU32
  rw [LittleEndian.toU32_u32] at ht
  exact ht

theorem At.pair (h : At p r pos) {m n : UInt32}
    (hp : Lies p.toBytes pos (LittleEndian.u32 m ++ LittleEndian.u32 n)) :
    Gives Reader.pair r (m, n) (At p · (pos + 8)) := by
  apply Gives.bind (h.u32 hp.left)
  intro t ht
  apply Gives.bind (ht.u32 hp.right)
  intro u hu
  exact ⟨u, rfl, hu⟩

end Concordance.Proofs.Cursors
