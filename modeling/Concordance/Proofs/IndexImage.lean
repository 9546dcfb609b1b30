import Concordance.Index.Builder
import Concordance.Proofs.Codecs
import Concordance.Proofs.StoreSearch

namespace Concordance.Proofs.IndexImage

open BlockStore (Record headerSize make)
open Index Outcomes Cursors StoreImage StoreSearch

theorem compare_bytes (a b : Bytes) : compare a b = .lt ↔ a < b := by
  change List.compareLex compare a b = .lt ↔ a < b
  induction a generalizing b with
  | nil =>
      cases b with
      | nil => simp [List.compareLex_nil_nil]
      | cons y b => simp [List.compareLex_nil_cons]
  | cons x a ih =>
      cases b with
      | nil => simp [List.compareLex_cons_nil]
      | cons y b =>
          have hlt : compare x y = .lt ↔ x < y := Std.compare_eq_lt
          have heq : compare x y = .eq ↔ x = y := Std.compare_eq_iff_eq
          rw [List.compareLex_cons_cons, Ordering.then_eq_lt, hlt, heq, ih b, List.cons_lt_cons_iff]

def Ascending {α : Type} (l : List (Bytes × α)) : Prop := l.Pairwise (·.1 < ·.1)

theorem ascending_toList {α : Type} (m : Std.ExtTreeMap Bytes α) : Ascending m.toList := by
  apply m.ordered_keys_toList.imp
  intro x y h
  exact (compare_bytes _ _).mp h

theorem Ascending.pairwise_keys {α : Type} {l : List (Bytes × α)} (h : Ascending l) :
    (l.map (·.1)).Pairwise (· < ·) :=
  List.pairwise_map.mpr h

theorem nodup_of_ascend {keys : List Bytes} (h : keys.Pairwise (· < ·)) : keys.Nodup := by
  apply h.imp
  rintro x y hlt rfl
  exact List.lt_irrefl _ hlt

theorem Ascending.nodup_keys {α : Type} {l : List (Bytes × α)} (h : Ascending l) :
    (l.map (·.1)).Nodup :=
  nodup_of_ascend h.pairwise_keys

theorem Ascending.nodup {α : Type} {l : List (Bytes × α)} (h : Ascending l) : l.Nodup :=
  List.Nodup.of_map _ h.nodup_keys

theorem Ascending.ext {α : Type} {l m : List (Bytes × α)} (hl : Ascending l) (hm : Ascending m)
    (h : ∀ x, x ∈ l ↔ x ∈ m) : l = m := by
  have hperm : l.Perm m := (List.perm_ext_iff_of_nodup hl.nodup hm.nodup).mpr h
  exact hperm.eq_of_pairwise (fun x y _ _ hxy hyx => absurd hyx (List.lt_asymm hxy)) hl hm

theorem ascending_mergeSort {α : Type} {l : List (Bytes × α)} (h : (l.map (·.1)).Nodup) :
    Ascending (l.mergeSort fun x y => x.1 ≤ y.1) := by
  have hsorted : (l.mergeSort fun x y => x.1 ≤ y.1).Pairwise
      fun x y => decide (x.1 ≤ y.1) = true := by
    apply List.pairwise_mergeSort
    · intro x y z hxy hyz
      rw [decide_eq_true_eq] at hxy hyz ⊢
      exact List.le_trans hxy hyz
    · intro x y
      simpa using List.le_total x.1 y.1
  have hkeys : ((l.mergeSort fun x y => x.1 ≤ y.1).map (·.1)).Nodup :=
    ((List.mergeSort_perm l fun x y => x.1 ≤ y.1).map (·.1)).nodup_iff.mpr h
  rw [List.Nodup, List.pairwise_map] at hkeys
  apply (hsorted.and hkeys).imp
  rintro x y ⟨hle, hne⟩
  exact Std.lt_of_le_of_ne (by simpa using hle) hne

theorem values_of_nodup {rs : List Record} (h : (rs.map (·.key)).Nodup) {r : Record}
    (hr : r ∈ rs) : values rs r.key = [r.value] := by
  induction rs with
  | nil => simp at hr
  | cons s rs ih =>
      rw [List.map_cons, List.nodup_cons] at h
      rcases List.mem_cons.mp hr with rfl | hr
      · have hnone : rs.filter (·.key = r.key) = [] := by
          rw [List.filter_eq_nil_iff]
          intro s hs heq
          exact h.1 (List.mem_map.mpr ⟨s, hs, by simpa using heq⟩)
        simp [values, hnone]
      · have hne : s.key ≠ r.key := fun heq => h.1 (heq ▸ List.mem_map.mpr ⟨r, hr, rfl⟩)
        rw [← ih h.2 hr, values, values, List.filter_cons, if_neg (by simp [hne])]

theorem values_eq_nil {rs : List Record} {key : Bytes} (h : ∀ r ∈ rs, r.key ≠ key) :
    values rs key = [] := by
  rw [values, List.filter_eq_nil_iff.mpr (by simpa using h)]
  rfl

variable (b : Builder)

theorem nodup_documentKeys : (b.documentRecords.map (·.key)).Nodup := by
  have h := (ascending_toList b.entries).nodup_keys
  rwa [Builder.documentRecords, List.map_map]

theorem values_documentRecords (id : Bytes) :
    (values b.documentRecords id).head? = b.entries[id]?.map (·.stored) := by
  cases he : b.entries[id]? with
  | none =>
      have hnone : ∀ r ∈ b.documentRecords, r.key ≠ id := by
        intro r hr
        obtain ⟨⟨k, e⟩, hk, rfl⟩ := List.mem_map.mp hr
        have hk := Std.ExtTreeMap.mem_toList_iff_getElem?_eq_some.mp hk
        rintro rfl
        rw [he] at hk
        cases hk
      rw [values_eq_nil hnone]
      rfl
  | some e =>
      have hmem : (⟨id, e.stored⟩ : Record) ∈ b.documentRecords :=
        List.mem_map.mpr ⟨(id, e), Std.ExtTreeMap.mem_toList_iff_getElem?_eq_some.mpr he, rfl⟩
      rw [values_of_nodup (nodup_documentKeys b) hmem]
      rfl

theorem nodup_wordKeys : (b.wordRecords.map (·.key)).Nodup := by
  have h : (b.vocabulary.toList.map Bytes.ofString).Nodup := by
    rw [List.Nodup, List.pairwise_map]
    apply b.vocabulary.distinct_toList.imp
    intro v w hne heq
    rw [Bytes.ofString_injective heq] at hne
    exact hne Std.ReflCmp.compare_self
  rwa [Builder.wordRecords, List.map_map]

theorem values_wordRecords (w : String) :
    (values b.wordRecords (Bytes.ofString w)).head? = if w ∈ b.vocabulary then
      some (Posting.encode (Builder.postingsOf w b.entries.toList)) else none := by
  split
  · rename_i hw
    have hmem : (⟨Bytes.ofString w, Posting.encode (Builder.postingsOf w b.entries.toList)⟩ :
        Record) ∈ b.wordRecords :=
      List.mem_map.mpr ⟨w, Std.ExtTreeSet.mem_toList.mpr hw, rfl⟩
    rw [values_of_nodup (nodup_wordKeys b) hmem]
    rfl
  · rename_i hw
    have hnone : ∀ r ∈ b.wordRecords, r.key ≠ Bytes.ofString w := by
      intro r hr
      obtain ⟨v, hv, rfl⟩ := List.mem_map.mp hr
      intro heq
      have hv := Std.ExtTreeSet.mem_toList.mp hv
      rw [Bytes.ofString_injective heq] at hv
      exact hw hv
    rw [values_eq_nil hnone]
    rfl

def listing (w : String) : List Posting :=
  if w ∈ b.vocabulary then Builder.postingsOf w b.entries.toList else []

theorem postingsOf_cons (w : String) (id : Bytes) (e : Entry) (es : List (Bytes × Entry)) :
    Builder.postingsOf w ((id, e) :: es) = if Text.Tally.count w e.words = 0 then
      Builder.postingsOf w es else
        ⟨id, UInt64.ofNat (Text.Tally.count w e.words)⟩ :: Builder.postingsOf w es := by
  simp only [Builder.postingsOf, List.filterMap_cons]
  cases Text.Tally.count w e.words with
  | zero => rfl
  | succ n => rfl

theorem ids_postingsOf (w : String) (es : List (Bytes × Entry)) :
    ((Builder.postingsOf w es).map (·.id)).Sublist (es.map (·.1)) := by
  induction es with
  | nil => exact List.Sublist.refl _
  | cons x es ih =>
      obtain ⟨id, e⟩ := x
      rw [postingsOf_cons]
      split
      · exact ih.cons id
      · exact ih.cons_cons id

theorem ids_listing_ascend (w : String) : ((listing b w).map (·.id)).Pairwise (· < ·) := by
  rw [listing]
  split
  · exact (ascending_toList b.entries).pairwise_keys.sublist (ids_postingsOf w _)
  · exact List.Pairwise.nil

theorem length_record_le {rs : List Record} {r : Record} (hr : r ∈ rs) :
    r.key.length + r.value.length ≤ dataSize rs := by
  obtain ⟨before, behind, rfl⟩ := List.append_of_mem hr
  rw [dataSize_append]
  simp only [dataSize, List.map_cons, List.sum_cons, recordSize]
  omega

theorem dataSize_le_size (rs : List Record) : dataSize rs ≤ size rs := by
  simp only [size]
  omega

theorem decode_postingsOf (h : size b.documentRecords < UInt32.size) (w : String) :
    Posting.decode (Posting.encode (Builder.postingsOf w b.entries.toList)) =
      .ok (Builder.postingsOf w b.entries.toList) := by
  have hsub := ids_postingsOf w b.entries.toList
  have hdata := dataSize_le_size b.documentRecords
  have hlt : UInt32.size < UInt64.size := by decide
  apply Codecs.decode_postings
  · exact (ascending_toList b.entries).nodup_keys.sublist hsub
  · intro p hp
    have hid := hsub.subset (List.mem_map.mpr ⟨p, hp, rfl⟩)
    obtain ⟨⟨k, e⟩, hmem, heq⟩ := List.mem_map.mp hid
    have hrecord : (⟨k, e.stored⟩ : Record) ∈ b.documentRecords :=
      List.mem_map.mpr ⟨_, hmem, rfl⟩
    have hlen : k.length + e.stored.length ≤ dataSize b.documentRecords :=
      length_record_le hrecord
    have hkey : k = p.id := heq
    rw [← hkey]
    omega
  · have hlen := hsub.length_le
    rw [List.length_map, List.length_map] at hlen
    have hrecords : b.documentRecords.length = b.entries.toList.length := by
      rw [Builder.documentRecords, List.length_map]
    have hslots : size b.documentRecords = headerSize + dataSize b.documentRecords +
      b.documentRecords.length * (2 * 8) := rfl
    omega

def headerOf : Header :=
  ⟨b.analyzer.fingerprint, UInt64.ofNat (size b.documentRecords),
    UInt64.ofNat (size b.wordRecords), UInt64.ofNat b.entries.size,
    UInt64.ofNat b.vocabulary.size⟩

theorem documentStoreLength_headerOf (h : size b.documentRecords < UInt32.size) :
    (headerOf b).documentStoreLength.toNat = size b.documentRecords := by
  have hmax : UInt32.size < UInt64.size := by decide
  exact UInt64.toNat_ofNat_of_lt' (by omega)

theorem wordStoreLength_headerOf (h : size b.wordRecords < UInt32.size) :
    (headerOf b).wordStoreLength.toNat = size b.wordRecords := by
  have hmax : UInt32.size < UInt64.size := by decide
  exact UInt64.toNat_ofNat_of_lt' (by omega)

def parts : List Bytes :=
  [(headerOf b).encode, image b.documentRecords, image b.wordRecords]

def fileSize : Nat := Header.size + size b.documentRecords + size b.wordRecords

theorem length_parts : (parts b).flatten.length = fileSize b := by
  simp [parts, Header.length_encode, length_image, fileSize, Nat.add_assoc]

theorem fileLength_headerOf (hd : size b.documentRecords < UInt32.size)
    (hw : size b.wordRecords < UInt32.size) : (headerOf b).fileLength = fileSize b := by
  rw [Header.fileLength, documentStoreLength_headerOf b hd, wordStoreLength_headerOf b hw, fileSize]

theorem lies_stores (h : Header) (ds ws : List Record) :
    Lies (h.encode ++ (image ds ++ image ws)) 0 h.encode ∧
      Lies (h.encode ++ (image ds ++ image ws)) Header.size (image ds) ∧
      Lies (h.encode ++ (image ds ++ image ws)) (Header.size + size ds) (image ws) := by
  have hrest := lies_append_right h.encode (image ds ++ image ws)
  rw [Header.length_encode] at hrest
  have hwords := hrest.right
  rw [length_image] at hwords
  exact ⟨lies_append_left _ _, hrest.left, hwords⟩

theorem lies_parts : Lies (parts b).flatten 0 (headerOf b).encode ∧
    Lies (parts b).flatten Header.size (image b.documentRecords) ∧
    Lies (parts b).flatten (Header.size + size b.documentRecords) (image b.wordRecords) := by
  have hflat : (parts b).flatten =
      (headerOf b).encode ++ (image b.documentRecords ++ image b.wordRecords) := by
    simp [parts]
  rw [hflat]
  exact lies_stores _ _ _

theorem finish_of_lt (hd : size b.documentRecords < UInt32.size)
    (hw : size b.wordRecords < UInt32.size) :
    b.finish = .ok (parts b, ⟨b.entries.size, b.vocabulary.size, (headerOf b).fileLength⟩) := by
  rw [Builder.finish, make_of_lt hd, ok_bind]
  simp only [make_of_lt hw, ok_bind]
  rfl

theorem small_of_finish {out : List Bytes × Summary} (h : b.finish = .ok out) :
    size b.documentRecords < UInt32.size ∧ size b.wordRecords < UInt32.size := by
  rw [Builder.finish] at h
  cases hd : make b.documentRecords with
  | error e =>
      rw [hd, error_bind] at h
      cases h
  | ok ds =>
      rw [hd, ok_bind] at h
      cases hw : make b.wordRecords with
      | error e =>
          simp only [hw, error_bind] at h
          cases h
      | ok ws => exact ⟨size_lt_of_make hd, size_lt_of_make hw⟩

/-- Building succeeds exactly if each of the two stores can be addressed. -/
theorem finish_eq_ok_iff (out : List Bytes × Summary) :
    b.finish = .ok out ↔ (size b.documentRecords < UInt32.size ∧
      size b.wordRecords < UInt32.size) ∧
        out = (parts b, ⟨b.entries.size, b.vocabulary.size, (headerOf b).fileLength⟩) := by
  constructor
  · intro h
    have hs := small_of_finish b h
    rw [finish_of_lt b hs.1 hs.2, Except.ok.injEq] at h
    exact ⟨hs, h.symm⟩
  · rintro ⟨⟨hd, hw⟩, rfl⟩
    exact finish_of_lt b hd hw

end Concordance.Proofs.IndexImage
