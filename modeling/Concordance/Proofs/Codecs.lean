import Mathlib.Data.List.Forall2
import Concordance.Index.Header
import Concordance.Posting
import Concordance.Proofs.Cursors
import Concordance.Proofs.Varints

namespace Concordance.Proofs.Codecs

open Index Outcomes Varints

def Numeral (e : Bytes) (n : Nat) : Prop := ∃ v, Varint.decode e = .ok (v, []) ∧ v.toNat = n

inductive Entry : Bytes → Posting → Prop
  | spelled {length count : Bytes} {p : Posting} (hlength : Numeral length p.id.length)
      (hcount : Numeral count p.count.toNat) : Entry (length ++ p.id ++ count) p

theorem numeral_encode (n : UInt64) : Numeral (Varint.encode n) n.toNat := by
  have hread := decode_encode n []
  rw [List.append_nil] at hread
  exact ⟨n, hread, rfl⟩

theorem Numeral.decode_append {e : Bytes} {n : Nat} (h : Numeral e n) (rest : Bytes) :
    ∃ v, Varint.decode (e ++ rest) = .ok (v, rest) ∧ v.toNat = n := by
  obtain ⟨v, hv, hn⟩ := h
  obtain ⟨run, hrun, hlen, rfl, rfl⟩ := decode_eq_ok_iff.mp hv
  rw [List.append_nil]
  exact ⟨_, decode_run hrun hlen rest, hn⟩

theorem entry_encodeEntry {p : Posting} (h : p.id.length < UInt64.size) :
    Entry (Posting.encodeEntry p) p := by
  have hlength := numeral_encode (UInt64.ofNat p.id.length)
  rw [UInt64.toNat_ofNat_of_lt' h] at hlength
  exact .spelled hlength (numeral_encode p.count)

theorem Entry.decodeEntry_append {e : Bytes} {p : Posting} (h : Entry e p) (rest : Bytes) :
    Posting.decodeEntry (e ++ rest) = .ok (p, rest) := by
  obtain ⟨hlength, hcount⟩ := h
  rename_i length count
  obtain ⟨v, hv, hid⟩ := hlength.decode_append (p.id ++ (count ++ rest))
  obtain ⟨m, hm, hcount⟩ := hcount.decode_append rest
  obtain rfl := UInt64.toNat_inj.mp hcount
  rw [Posting.decodeEntry, List.append_assoc, List.append_assoc, hv, ok_bind]
  simp only [hid, List.take_left, List.drop_left, Nat.lt_irrefl, if_false, hm, ok_bind]
  rfl

theorem decodeEntries_append {entries : List Bytes} {ps : List Posting}
    (h : List.Forall₂ Entry entries ps) (rest : Bytes) :
    Posting.decodeEntries ps.length (entries.flatten ++ rest) = .ok (ps, rest) := by
  induction h with
  | nil => rfl
  | cons hentry _ ih =>
      rw [List.flatten_cons, List.append_assoc, List.length_cons, Posting.decodeEntries,
        hentry.decodeEntry_append, ok_bind]
      simp only [ih, ok_bind]
      rfl

theorem decodeExactly_of_entries {entries : List Bytes} {ps : List Posting}
    (h : List.Forall₂ Entry entries ps) :
    Posting.decodeExactly ps.length entries.flatten = .ok ps := by
  have hread := decodeEntries_append h []
  rw [List.append_nil] at hread
  rw [Posting.decodeExactly, hread]
  rfl

theorem decode_of_entries {head : Bytes} {entries : List Bytes} {ps : List Posting}
    (hhead : Numeral head ps.length) (hentries : List.Forall₂ Entry entries ps)
    (hfits : ps.length ≤ entries.flatten.length / 3 + 1) :
    Posting.decode (head ++ entries.flatten) = .ok ps := by
  obtain ⟨v, hv, hlen⟩ := hhead.decode_append entries.flatten
  rw [Posting.decode, hv, ok_bind]
  dsimp only
  rw [if_neg (by omega), hlen]
  exact decodeExactly_of_entries hentries

theorem Numeral.length_pos {e : Bytes} {n : Nat} (h : Numeral e n) : 0 < e.length := by
  obtain ⟨v, hread, -⟩ := h
  cases e with
  | nil => cases hread
  | cons => exact Nat.succ_pos _

theorem Entry.three_le {e : Bytes} {p : Posting} (h : Entry e p) :
    3 ≤ e.length + if p.id = [] then 1 else 0 := by
  obtain ⟨hlength, hcount⟩ := h
  have hfirst := hlength.length_pos
  have hlast := hcount.length_pos
  rw [List.length_append, List.length_append]
  by_cases hid : p.id = []
  · rw [if_pos hid]
    omega
  · have := List.length_pos_iff.mpr hid
    rw [if_neg hid]
    omega

/-- All entries take three bytes, but for those of postings without an id. -/
theorem three_mul_le {entries : List Bytes} {ps : List Posting}
    (h : List.Forall₂ Entry entries ps) :
    3 * ps.length ≤ entries.flatten.length + ps.countP (·.id = []) := by
  induction h with
  | nil => simp
  | cons hentry _ ih =>
      have hone := hentry.three_le
      rw [List.flatten_cons, List.length_append, List.length_cons, List.countP_cons]
      simp only [decide_eq_true_eq]
      omega

theorem countP_le_one {ps : List Posting} (h : (ps.map (·.id)).Nodup) :
    ps.countP (·.id = []) ≤ 1 := by
  have hcount : ps.countP (·.id = []) = (ps.map (·.id)).count [] := by
    rw [List.count, List.countP_map]
    apply List.countP_congr
    simp
  rw [hcount]
  exact List.nodup_iff_count_le_one.mp h []

theorem decode_postings {ps : List Posting} (hnd : (ps.map (·.id)).Nodup)
    (hids : ∀ p ∈ ps, p.id.length < UInt64.size) (hlen : ps.length < UInt64.size) :
    Posting.decode (Posting.encode ps) = .ok ps := by
  have hhead := numeral_encode (UInt64.ofNat ps.length)
  rw [UInt64.toNat_ofNat_of_lt' hlen] at hhead
  have hentries : List.Forall₂ Entry (ps.map Posting.encodeEntry) ps := by
    rw [List.forall₂_map_left_iff, List.forall₂_same]
    exact fun p hp => entry_encodeEntry (hids p hp)
  have hsize := three_mul_le hentries
  have hone := countP_le_one hnd
  rw [Posting.encode, List.flatMap_def]
  exact decode_of_entries hhead hentries (by omega)

section

open Cursors

theorem u32At_eq {b : Bytes} {offset : Nat} {n : UInt32} (h : Lies b offset (LittleEndian.u32 n)) :
    Header.u32At b offset = n := by
  have hs := h.slice_eq
  rw [LittleEndian.length_u32] at hs
  rw [Header.u32At, hs, LittleEndian.toU32_u32]

theorem u64At_eq {b : Bytes} {offset : Nat} {n : UInt64} (h : Lies b offset (LittleEndian.u64 n)) :
    Header.u64At b offset = n := by
  have hs := h.slice_eq
  rw [LittleEndian.length_u64] at hs
  rw [Header.u64At, hs, LittleEndian.toU64_u64]

theorem decode_header (h : Header) : Header.decode h.encode = .ok h := by
  have hpayload : Lies h.encode 0 h.payload := (lies_append_left _ _).left
  have htake (n : Nat) (hn : n ≤ 48) : h.encode.take n = h.payload.take n := by
    rw [Header.encode, Header.sealed, List.append_assoc,
      List.take_append_of_le_length (by rw [h.length_payload]; exact hn)]
  have hsum : Lies h.encode 48 (LittleEndian.u32 (Crc32.checksum h.payload)) := by
    have hl := (lies_append_left h.sealed (List.replicate (Header.size - 52) 0)).right
    rwa [h.length_payload] at hl
  have hall : h.encode.take 48 = h.payload := by
    rw [htake 48 (Nat.le_refl _), List.take_of_length_le (Nat.le_of_eq h.length_payload)]
  have hmagic : h.encode.take 8 = Header.magic := by
    rw [htake 8 (by decide)]
    rfl
  have hbase : Lies h.encode 0 (Header.magic ++ LittleEndian.u32 Header.version ++
      LittleEndian.u32 h.fingerprint ++ LittleEndian.u64 h.documentStoreLength ++
      LittleEndian.u64 h.wordStoreLength ++ LittleEndian.u64 h.documentCount ++
      LittleEndian.u64 h.wordCount) := hpayload
  have hversion : Header.u32At h.encode 8 = Header.version :=
    u32At_eq hbase.left.left.left.left.left.right
  have hfingerprint : Header.u32At h.encode 12 = h.fingerprint :=
    u32At_eq hbase.left.left.left.left.right
  have hdocuments : Header.u64At h.encode 16 = h.documentStoreLength :=
    u64At_eq hbase.left.left.left.right
  have hwords : Header.u64At h.encode 24 = h.wordStoreLength := u64At_eq hbase.left.left.right
  have hdocumentCount : Header.u64At h.encode 32 = h.documentCount := u64At_eq hbase.left.right
  have hwordCount : Header.u64At h.encode 40 = h.wordCount := u64At_eq hbase.right
  have hchecksum : Header.u32At h.encode 48 = Crc32.checksum (h.encode.take 48) := by
    rw [hall]
    exact u32At_eq hsum
  rw [Header.decode, if_neg (by rw [h.length_encode]; exact Nat.lt_irrefl _)]
  simp only [hmagic, hversion, hchecksum, hfingerprint, hdocuments, hwords, hdocumentCount,
    hwordCount, ne_eq, not_true_eq_false, if_false]
  rfl

end

end Concordance.Proofs.Codecs
