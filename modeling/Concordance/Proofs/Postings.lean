import Concordance.Proofs.Corruption

namespace Concordance.Proofs.Postings

open Outcomes Guards
open Codecs (Numeral Entry decode_of_entries decode_postings)
open Corruption (decode_fares)
open GuardedSearchers (entrySize roomLimit formatted mirrors_decode)

section

variable {b e rest : Bytes} {v : UInt64} {p : Posting} {ps : List Posting} {n : Nat}

theorem numeral_of_decode (h : Varint.decode b = .ok (v, rest)) :
    ∃ e, b = e ++ rest ∧ Numeral e v.toNat := by
  obtain ⟨run, hrun, hlen, rfl, rfl⟩ := Varints.decode_eq_ok_iff.mp h
  have hread := Varints.decode_run hrun hlen []
  rw [List.append_nil] at hread
  exact ⟨run, rfl, _, hread, rfl⟩

theorem entry_of_decodeEntry (h : Posting.decodeEntry b = .ok (p, rest)) :
    ∃ e, b = e ++ rest ∧ Entry e p := by
  rw [Posting.decodeEntry] at h
  obtain ⟨⟨v, left⟩, hv, hread⟩ := bind_eq_ok h
  obtain ⟨length, hb, hlength⟩ := numeral_of_decode hv
  dsimp only at hread
  split at hread
  · cases hread
  · rename_i hlong
    obtain ⟨⟨m, rest'⟩, hm, hend⟩ := bind_eq_ok hread
    cases hend
    obtain ⟨count, hcut, hcount⟩ := numeral_of_decode hm
    have hid : (left.take v.toNat).length = v.toNat := by
      have := List.length_take_le v.toNat left
      omega
    refine ⟨length ++ left.take v.toNat ++ count, ?_,
      .spelled (p := ⟨left.take v.toNat, m⟩) (hid.symm ▸ hlength) hcount⟩
    rw [hb, List.append_assoc, List.append_assoc, ← hcut, List.take_append_drop]

theorem entries_of_decodeEntries (h : Posting.decodeEntries n b = .ok (ps, rest)) :
    ∃ entries, List.Forall₂ Entry entries ps ∧ ps.length = n ∧ b = entries.flatten ++ rest := by
  induction n generalizing b ps with
  | zero =>
      cases h
      exact ⟨[], .nil, rfl, rfl⟩
  | succ n ih =>
      rw [Posting.decodeEntries] at h
      obtain ⟨⟨p, left⟩, hp, h⟩ := bind_eq_ok h
      obtain ⟨⟨qs, rest'⟩, hqs, h⟩ := bind_eq_ok h
      cases h
      obtain ⟨e, rfl, he⟩ := entry_of_decodeEntry hp
      obtain ⟨entries, hentries, rfl, rfl⟩ := ih hqs
      exact ⟨e :: entries, .cons he hentries, rfl, by rw [List.flatten_cons, List.append_assoc]⟩

theorem entries_of_decodeExactly (h : Posting.decodeExactly n b = .ok ps) :
    ∃ entries, List.Forall₂ Entry entries ps ∧ ps.length = n ∧ b = entries.flatten := by
  rw [Posting.decodeExactly] at h
  obtain ⟨⟨qs, rest⟩, hqs, h⟩ := bind_eq_ok h
  cases rest with
  | nil =>
      cases h
      obtain ⟨entries, hentries, hlen, rfl⟩ := entries_of_decodeEntries hqs
      exact ⟨entries, hentries, hlen, List.append_nil _⟩
  | cons x rest => cases h

theorem decode_eq_ok_iff : Posting.decode b = .ok ps ↔ ∃ head entries, b = head ++ entries.flatten ∧
    Numeral head ps.length ∧ List.Forall₂ Entry entries ps ∧
      ps.length ≤ entries.flatten.length / 3 + 1 := by
  constructor
  · intro h
    rw [Posting.decode] at h
    obtain ⟨⟨v, rest⟩, hv, hread⟩ := bind_eq_ok h
    obtain ⟨head, hb, hhead⟩ := numeral_of_decode hv
    dsimp only at hread
    split at hread
    · cases hread
    · rename_i hfits
      obtain ⟨entries, hentries, hlen, rfl⟩ := entries_of_decodeExactly hread
      exact ⟨head, entries, hb, hlen ▸ hhead, hentries, by omega⟩
  · rintro ⟨head, entries, rfl, hhead, hentries, hfits⟩
    exact decode_of_entries hhead hentries hfits

end

/-- A list of different ids is read from what it is encoded to. Bytes are read as a list just if
they are a number, which is that of the postings, and an entry for each of them in turn with nothing
behind, and if the entries are at most one more than a third of their bytes; else they are refused
for a fault of the format. No guard stops the reading: it neither leaves the bytes nor asks for room
that no memory has. -/
theorem decode_lists :
    (∀ ps : List Posting, (ps.map (·.id)).Nodup → (∀ p ∈ ps, p.id.length < UInt64.size) →
      ps.length < UInt64.size → Posting.decode (Posting.encode ps) = .ok ps) ∧
    (∀ b ps, Posting.decode b = .ok ps ↔ ∃ head entries, b = head ++ entries.flatten ∧
      Numeral head ps.length ∧ List.Forall₂ Entry entries ps ∧
        ps.length ≤ entries.flatten.length / 3 + 1) ∧
    ∀ b : Bytes, (b.length / 3 + 1) * entrySize < roomLimit → ∀ {σ : Type} (s : σ),
      GuardedSearchers.decode b s = bare (formatted (Posting.decode b)) s :=
  ⟨fun _ hnd hids hlen => decode_postings hnd hids hlen, fun _ _ => decode_eq_ok_iff,
    fun b hb _ _ => ((decode_fares hb).eq_bare (mirrors_decode b)).1⟩

def loose : Bytes := [0x82, 0x00] ++ [[0x00, 0x07], [0x81, 0x80, 0x00, 0x2F, 0xAC, 0x02]].flatten

def pair : List Posting := [⟨[], 7⟩, ⟨[0x2F], 300⟩]

theorem decode_lists_loose :
    Posting.decode (Posting.encode pair) = .ok pair ∧ Posting.decode loose = .ok pair ∧
      GuardedSearchers.decode loose () = bare (formatted (Posting.decode loose)) () := by
  obtain ⟨hencoded, hread, hguarded⟩ := decode_lists
  have hnone : Numeral [0x00] 0 := ⟨0, rfl, rfl⟩
  have hone : Numeral [0x81, 0x80, 0x00] 1 := ⟨1, rfl, rfl⟩
  have hseven : Numeral [0x07] 7 := ⟨7, rfl, rfl⟩
  have hmany : Numeral [0xAC, 0x02] 300 := ⟨300, rfl, rfl⟩
  have hfirst : Entry [0x00, 0x07] ⟨[], 7⟩ := .spelled (p := ⟨[], 7⟩) hnone hseven
  have hsecond : Entry [0x81, 0x80, 0x00, 0x2F, 0xAC, 0x02] ⟨[0x2F], 300⟩ :=
    .spelled (p := ⟨[0x2F], 300⟩) hone hmany
  exact ⟨hencoded pair (by decide) (by decide) (by decide),
    (hread loose pair).mpr ⟨_, _, rfl, ⟨2, rfl, rfl⟩, .cons hfirst (.cons hsecond .nil), by decide⟩,
    hguarded loose (by decide) ()⟩

end Concordance.Proofs.Postings
