import Mathlib.Data.List.Rotate
import Mathlib.Data.List.TakeWhile
import Mathlib.Data.Nat.ModEq
import Concordance.BlockStore.Table

namespace Concordance.Proofs.Probing

open BlockStore BlockStore.Table

def Occupied (s : Slot) : Bool := s.position ≠ 0

def slotAt (t : Array Slot) (i : Nat) : Slot := t.getD i Slot.empty

def cycle (t : Array Slot) (h : UInt32) : List Slot :=
  (walk t.size (firstSlot h t.size) t.size).map (slotAt t)

/-- What a search for the hash meets before the first empty slot. -/
def run (t : Array Slot) (h : UInt32) : List Slot := (cycle t h).takeWhile Occupied

theorem walk_nodup (n start : Nat) : (walk n start n).Nodup := by
  apply List.Nodup.map_on _ List.nodup_range
  intro a ha b hb h
  have hab : a ≡ b [MOD n] := Nat.ModEq.add_left_cancel' start h
  exact hab.eq_of_lt_of_lt (List.mem_range.mp ha) (List.mem_range.mp hb)

theorem cycle_eq_rotate (t : Array Slot) (h : UInt32) :
    cycle t h = t.toList.rotate (firstSlot h t.size) := by
  apply List.ext_getElem
  · simp [cycle, walk]
  · intro i hi hj
    have hlt : i < t.size := by simpa [cycle, walk] using hi
    have hm : (firstSlot h t.size + i) % t.size < t.size := Nat.mod_lt _ (by omega)
    simp [cycle, walk, slotAt, List.getElem_rotate, hm, Nat.add_comm i]

theorem length_cycle (t : Array Slot) (h : UInt32) : (cycle t h).length = t.size := by
  simp [cycle, walk]

theorem cycle_perm (t : Array Slot) (h : UInt32) : (cycle t h).Perm t.toList := by
  rw [cycle_eq_rotate]
  exact List.rotate_perm _ _

/-- The place of one element in a rotated list does not depend on the element. -/
theorem rotate_append_cons {α : Type} (pre post : List α) (k : Nat) :
    ∃ pre' post', ∀ x, (pre ++ x :: post).rotate k = pre' ++ x :: post' := by
  have hmod (x : α) : (pre ++ x :: post).rotate k =
      (pre ++ x :: post).rotate (k % (pre.length + post.length + 1)) := by
    rw [← List.rotate_mod]
    simp [Nat.add_assoc]
  have hk : k % (pre.length + post.length + 1) < pre.length + post.length + 1 :=
    Nat.mod_lt _ (by omega)
  generalize k % (pre.length + post.length + 1) = m at hmod hk
  by_cases hm : m ≤ pre.length
  · refine ⟨pre.drop m, post ++ pre.take m, ?_⟩
    intro x
    rw [hmod, List.rotate_eq_drop_append_take (by simp; omega), List.drop_append_of_le_length hm,
      List.take_append_of_le_length hm]
    simp
  · obtain ⟨j, rfl⟩ : ∃ j, m = pre.length + (j + 1) := ⟨m - pre.length - 1, by omega⟩
    refine ⟨post.drop j ++ pre, post.take j, ?_⟩
    intro x
    rw [hmod, List.rotate_eq_drop_append_take (by simp; omega), List.drop_append,
      List.take_append, List.drop_eq_nil_of_le (by omega), List.take_of_length_le (by omega)]
    simp

theorem cycle_eq_rotate_cycle (t : Array Slot) (g h : UInt32) :
    ∃ k, ∀ u : Array Slot, u.size = t.size → cycle u h = (cycle u g).rotate k := by
  refine ⟨firstSlot h t.size + t.size * firstSlot g t.size - firstSlot g t.size, ?_⟩
  intro u hu
  rw [cycle_eq_rotate, cycle_eq_rotate, List.rotate_rotate, hu]
  by_cases hn : t.size = 0
  · have : u.toList = [] := by simpa [hn] using hu
    simp [this]
  · have hle : firstSlot g t.size ≤ t.size * firstSlot g t.size :=
      Nat.le_mul_of_pos_left _ (by omega)
    rw [← List.rotate_mod, ← List.rotate_mod u.toList (_ + _), Array.length_toList, hu,
      Nat.add_sub_cancel' (by omega), Nat.add_mul_mod_self_left]

theorem isEmptyAt_eq (t : Array Slot) {i : Nat} (hi : i < t.size) :
    isEmptyAt t i = !Occupied (slotAt t i) := by
  simp [isEmptyAt, Occupied, slotAt, hi]

theorem mem_walk_lt {n start i : Nat} (h : i ∈ walk n start n) : i < n := by
  obtain ⟨j, hj, rfl⟩ := List.mem_map.mp h
  have := List.mem_range.mp hj
  exact Nat.mod_lt _ (by omega)

structure HasRoom (t : Array Slot) : Prop where
  free : ∃ e ∈ t.toList, Occupied e = false
  divides : UInt32.ofNat t.size ≠ 0

theorem freeSlot?_eq {t : Array Slot} (ht : HasRoom t) (h : UInt32) :
    freeSlot? t h = (walk t.size (firstSlot h t.size) t.size).find? (isEmptyAt t) := by
  rw [freeSlot?, if_neg ht.divides, ← probe_eq_find?, firstSlot_mod h ht.divides]

theorem exists_freeSlot {t : Array Slot} (hroom : HasRoom t) (h : UInt32) :
    ∃ i, freeSlot? t h = some i := by
  rw [← Option.isSome_iff_exists, freeSlot?_eq hroom, List.find?_isSome]
  obtain ⟨e, he, hempty⟩ := hroom.free
  obtain ⟨i, hi, rfl⟩ := List.mem_map.mp ((cycle_perm t h).mem_iff.mpr he)
  exact ⟨i, hi, by rw [isEmptyAt_eq t (mem_walk_lt hi), hempty]; rfl⟩

/-- Where a new entry goes, as the search for its own hash sees it. -/
theorem cycle_place_self (t : Array Slot) (s : Slot) (hroom : HasRoom t) :
    ∃ pre e post, cycle t s.hash = pre ++ e :: post ∧
      cycle (place t s) s.hash = pre ++ s :: post ∧
      (∀ x ∈ pre, Occupied x = true) ∧ Occupied e = false := by
  obtain ⟨i, hf⟩ := exists_freeSlot hroom s.hash
  obtain ⟨hi, as, bs, hw, has⟩ :=
    List.find?_eq_some_iff_append.mp ((freeSlot?_eq hroom s.hash).symm.trans hf)
  have hmem : ∀ j ∈ as ++ i :: bs, j < t.size := fun j hj => mem_walk_lt (hw ▸ hj)
  have hnd : (as ++ i :: bs).Nodup := hw ▸ walk_nodup _ _
  have hplace : place t s = t.setIfInBounds i s := by rw [place, hf]
  have hkeep (j : Nat) (hj : j ≠ i) : slotAt (place t s) j = slotAt t j := by
    simp [hplace, slotAt, Array.getElem?_setIfInBounds_ne (Ne.symm hj)]
  have hself : slotAt (place t s) i = s := by
    simp [hplace, slotAt, hmem i (by simp)]
  rw [List.nodup_append, List.nodup_cons] at hnd
  refine ⟨as.map (slotAt t), slotAt t i, bs.map (slotAt t), ?_, ?_, ?_, ?_⟩
  · simp [cycle, hw]
  · have ha : as.map (slotAt (place t s)) = as.map (slotAt t) := by
      apply List.map_congr_left
      intro j hj
      exact hkeep j (hnd.2.2 j hj i (by simp))
    have hb : bs.map (slotAt (place t s)) = bs.map (slotAt t) := by
      apply List.map_congr_left
      intro j hj
      exact hkeep j (fun he => hnd.2.1.1 (he ▸ hj))
    simp [cycle, size_place, hw, ha, hb, hself]
  · intro x hx
    obtain ⟨j, hj, rfl⟩ := List.mem_map.mp hx
    have := has j hj
    simpa [isEmptyAt_eq t (hmem j (by simp [hj]))] using this
  · simpa [isEmptyAt_eq t (hmem i (by simp))] using hi

/-- Where a new entry goes, as the search for any hash sees it. -/
theorem cycle_place (t : Array Slot) (s : Slot) (hroom : HasRoom t) (h : UInt32) :
    ∃ pre e post, cycle t h = pre ++ e :: post ∧ cycle (place t s) h = pre ++ s :: post ∧
      Occupied e = false ∧ (s.hash = h → ∀ x ∈ pre, Occupied x = true) := by
  obtain ⟨pre, e, post, ht, hp, hpre, he⟩ := cycle_place_self t s hroom
  by_cases hh : s.hash = h
  · subst hh
    exact ⟨pre, e, post, ht, hp, he, fun _ => hpre⟩
  · obtain ⟨k, hk⟩ := cycle_eq_rotate_cycle t s.hash h
    obtain ⟨pre', post', hr⟩ := rotate_append_cons pre post k
    refine ⟨pre', e, post', ?_, ?_, he, fun heq => absurd heq hh⟩
    · rw [hk t rfl, ht, hr]
    · rw [hk _ (size_place t s), hp, hr]

/-- A table into which the entries were put one after the other. A search for a hash meets all
entries of that hash, in their order, before the first empty slot. -/
structure Holds (t : Array Slot) (es : List Slot) : Prop where
  found : ∀ h, (run t h).filter (·.hash = h) = es.filter (·.hash = h)
  none_behind : ∀ h, ((cycle t h).filter Occupied).filter (·.hash = h) =
    (run t h).filter (·.hash = h)
  perm : (t.toList.filter Occupied).Perm es

theorem takeWhile_append_of_false {α : Type} {p : α → Bool} {pre : List α} {x : α}
    (hx : x ∈ pre) (h : p x = false) (l : List α) :
    (pre ++ l).takeWhile p = pre.takeWhile p := by
  induction pre with
  | nil => simp at hx
  | cons y pre ih =>
      rcases List.mem_cons.mp hx with rfl | hx
      · simp [h]
      · rw [List.cons_append, List.takeWhile_cons, List.takeWhile_cons, ih hx]

theorem Holds.run_place {t : Array Slot} {es : List Slot} (ht : Holds t es) {s : Slot}
    (hs : Occupied s = true) (hroom : HasRoom t) (h : UInt32) :
    (run (Table.place t s) h).filter (·.hash = h) =
        es.filter (·.hash = h) ++ [s].filter (·.hash = h) ∧
      ((cycle (Table.place t s) h).filter Occupied).filter (·.hash = h) =
        (run (Table.place t s) h).filter (·.hash = h) := by
  obtain ⟨pre, e, post, hc, hp, he, hself⟩ := cycle_place t s hroom h
  have hfound := ht.found h
  have hbehind := ht.none_behind h
  by_cases hpre : ∀ x ∈ pre, Occupied x = true
  · -- The search came to the new entry's slot, behind which no entry of its hash lies.
    have hrun : run t h = pre := by
      rw [run, hc, List.takeWhile_append_of_pos hpre]
      simp [he]
    have hrun' : run (Table.place t s) h = pre ++ s :: post.takeWhile Occupied := by
      rw [run, hp, List.takeWhile_append_of_pos hpre]
      simp [hs]
    have hpost : (post.filter Occupied).filter (·.hash = h) = [] := by
      rw [hrun, hc] at hbehind
      simpa [List.filter_append, he, List.filter_eq_self.mpr hpre] using hbehind
    have htake : (post.takeWhile Occupied).filter (·.hash = h) = [] := by
      apply List.eq_nil_of_subset_nil
      rw [← hpost]
      intro x hx
      obtain ⟨hx, hxh⟩ := List.mem_filter.mp hx
      have hxo : Occupied x = true := List.mem_takeWhile_imp hx
      exact List.mem_filter.mpr ⟨List.mem_filter.mpr ⟨List.takeWhile_subset _ hx, hxo⟩, hxh⟩
    rw [hrun] at hfound
    rw [hrun', hp]
    constructor
    · rw [← hfound, List.filter_append, List.filter_cons, htake]
      simp [List.filter_cons]
    · rw [List.filter_append, List.filter_append, List.filter_cons, if_pos hs, List.filter_cons,
        hpost, List.filter_eq_self.mpr hpre, List.filter_append, List.filter_cons, htake]
  · -- The search ends before the new entry, which has another hash.
    have hne : s.hash ≠ h := fun heq => hpre (hself heq)
    obtain ⟨x, hx, hxo⟩ : ∃ x ∈ pre, Occupied x = false := by simpa using hpre
    have hrun : run (Table.place t s) h = run t h := by
      rw [run, run, hc, hp, takeWhile_append_of_false hx hxo, takeWhile_append_of_false hx hxo]
    rw [hrun]
    constructor
    · simp [hfound, hne]
    · rw [← hbehind, hp, hc]
      simp [List.filter_append, he, hs, hne]

theorem Holds.perm_place {t : Array Slot} {es : List Slot} (ht : Holds t es) {s : Slot}
    (hs : Occupied s = true) (hroom : HasRoom t) :
    ((Table.place t s).toList.filter Occupied).Perm (es ++ [s]) := by
  obtain ⟨pre, e, post, hc, hp, he, -⟩ := cycle_place t s hroom 0
  have hold := (cycle_perm t 0).filter Occupied
  have hnew := (cycle_perm (Table.place t s) 0).filter Occupied
  rw [hc, List.filter_append, List.filter_cons, if_neg (by simp [he])] at hold
  rw [hp, List.filter_append, List.filter_cons, if_pos hs] at hnew
  calc ((Table.place t s).toList.filter Occupied).Perm
        (pre.filter Occupied ++ s :: post.filter Occupied) := hnew.symm
    _ |>.Perm (s :: (pre.filter Occupied ++ post.filter Occupied)) := List.perm_middle
    _ |>.Perm (s :: es) := (hold.trans ht.perm).cons s
    _ |>.Perm (es ++ [s]) := (List.perm_append_singleton s es).symm

theorem Holds.place {t : Array Slot} {es : List Slot} (ht : Holds t es) {s : Slot}
    (hs : Occupied s = true) (hroom : HasRoom t) :
    Holds (place t s) (es ++ [s]) := by
  refine ⟨?_, fun h => (ht.run_place hs hroom h).2, ht.perm_place hs hroom⟩
  intro h
  rw [(ht.run_place hs hroom h).1, List.filter_append]

theorem Holds.exists_empty {t : Array Slot} {es : List Slot} (ht : Holds t es)
    (hlen : es.length < t.size) : ∃ e ∈ t.toList, Occupied e = false := by
  by_contra hfull
  have hall : t.toList.filter Occupied = t.toList := by
    apply List.filter_eq_self.mpr
    intro e he
    by_contra hne
    exact hfull ⟨e, he, by simpa using hne⟩
  have hperm := ht.perm.length_eq
  rw [hall, Array.length_toList] at hperm
  omega

theorem holds_replicate (n : Nat) : Holds (Array.replicate n Slot.empty) [] := by
  have hempty (h : UInt32) : ∀ x ∈ cycle (Array.replicate n Slot.empty) h, Occupied x = false := by
    intro x hx
    have hmem := (cycle_perm _ h).mem_iff.mp hx
    simp only [Array.toList_replicate, List.mem_replicate] at hmem
    rw [hmem.2]
    rfl
  have hrun (h : UInt32) : run (Array.replicate n Slot.empty) h = [] := by
    rw [run, List.takeWhile_eq_nil_iff]
    intro hpos
    simpa using hempty h _ (List.getElem_mem hpos)
  refine ⟨?_, ?_, ?_⟩
  · intro h
    rw [hrun]
  · intro h
    have hnone : (cycle (Array.replicate n Slot.empty) h).filter Occupied = [] :=
      List.filter_eq_nil_iff.mpr (by simpa using hempty h)
    rw [hrun, hnone]
  · simp [Occupied, Slot.empty]

theorem holds_foldl (es new : List Slot) (t : Array Slot) (ht : Holds t es)
    (hdivides : UInt32.ofNat t.size ≠ 0) (hnew : ∀ s ∈ new, s.position ≠ 0)
    (hlen : es.length + new.length < t.size ∨ new = []) :
    Holds (new.foldl place t) (es ++ new) := by
  induction new generalizing es t with
  | nil => simpa using ht
  | cons s new ih =>
      have hlt : es.length + (new.length + 1) < t.size := by simpa using hlen
      have hs : Occupied s = true := by simpa [Occupied] using hnew s (by simp)
      have hroom : HasRoom t := ⟨ht.exists_empty (by omega), hdivides⟩
      have hnext := ih (es ++ [s]) (place t s) (ht.place hs hroom) (by rwa [size_place])
        (fun x hx => hnew x (by simp [hx])) (.inl (by simp [size_place]; omega))
      simpa using hnext

/-- The number of slots for some entries is one that start slots can be computed with. -/
def Divides (es : List Slot) : Prop := es = [] ∨ UInt32.ofNat (2 * es.length) ≠ 0

theorem divides_of_lt {es : List Slot} (h : 2 * es.length < UInt32.size) : Divides es := by
  cases es with
  | nil => exact .inl rfl
  | cons e es => exact .inr (ofNat_ne_zero (by simp) h)

theorem holds_build (es : List Slot) (hpos : ∀ s ∈ es, s.position ≠ 0) (h : Divides es) :
    Holds (build es) es := by
  obtain rfl | hdivides := h
  · exact holds_replicate 0
  · have hsize : UInt32.ofNat (Array.replicate (2 * es.length) Slot.empty).size ≠ 0 := by
      rwa [Array.size_replicate]
    have hfold := holds_foldl [] es _ (holds_replicate (2 * es.length)) hsize hpos
    cases es with
    | nil => exact hfold (.inr rfl)
    | cons s es => exact hfold (.inl (by simp))

end Concordance.Proofs.Probing
