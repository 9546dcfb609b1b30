import Concordance.Proofs.Postings

namespace Concordance.Proofs.Refusals

open Posting Outcomes
open Codecs (Numeral Entry decodeExactly_of_entries three_mul_le countP_le_one)
open Postings (numeral_of_decode entries_of_decodeEntries entries_of_decodeExactly)

/-- As many entries are read as a list claims to have. -/
def decodeClaimed (b : Bytes) : Except FormatFault (List Posting) := do
  let (count, rest) ← Varint.decode b
  decodeExactly count.toNat rest

/-- Bytes that spell a list in fewer than three bytes an entry, even with one entry left out. -/
def Terse (b : Bytes) (ps : List Posting) : Prop :=
  ∃ head entries, b = head ++ entries.flatten ∧ Numeral head ps.length ∧
    List.Forall₂ Entry entries ps ∧ entries.flatten.length < 3 * (ps.length - 1)

section

variable {b rest : Bytes} {ps : List Posting} {n : Nat}

theorem decodeClaimed_eq_ok_iff : decodeClaimed b = .ok ps ↔ ∃ head entries,
    b = head ++ entries.flatten ∧ Numeral head ps.length ∧ List.Forall₂ Entry entries ps := by
  constructor
  · intro h
    rw [decodeClaimed] at h
    obtain ⟨⟨v, rest⟩, hv, hread⟩ := bind_eq_ok h
    obtain ⟨head, hb, hhead⟩ := numeral_of_decode hv
    obtain ⟨entries, hentries, hlen, rfl⟩ := entries_of_decodeExactly hread
    exact ⟨head, entries, hb, hlen ▸ hhead, hentries⟩
  · rintro ⟨head, entries, rfl, hhead, hentries⟩
    obtain ⟨v, hv, hlen⟩ := hhead.decode_append entries.flatten
    rw [decodeClaimed, hv, ok_bind]
    dsimp only
    rw [hlen]
    exact decodeExactly_of_entries hentries

theorem claimed_of_decode (h : decode b = .ok ps) : decodeClaimed b = .ok ps := by
  obtain ⟨head, entries, hb, hhead, hentries, -⟩ := Postings.decode_eq_ok_iff.mp h
  exact decodeClaimed_eq_ok_iff.mpr ⟨head, entries, hb, hhead, hentries⟩

theorem decode_or_terse (h : decodeClaimed b = .ok ps) : decode b = .ok ps ∨ Terse b ps := by
  obtain ⟨head, entries, hb, hhead, hentries⟩ := decodeClaimed_eq_ok_iff.mp h
  by_cases hfits : ps.length ≤ entries.flatten.length / 3 + 1
  · exact .inl (Postings.decode_eq_ok_iff.mpr ⟨head, entries, hb, hhead, hentries, hfits⟩)
  · exact .inr ⟨head, entries, hb, hhead, hentries, by omega⟩

theorem Terse.claimed (h : Terse b ps) : decodeClaimed b = .ok ps := by
  obtain ⟨head, entries, hb, hhead, hentries, -⟩ := h
  exact decodeClaimed_eq_ok_iff.mpr ⟨head, entries, hb, hhead, hentries⟩

theorem Terse.refused (h : Terse b ps) : ∃ count rest, Varint.decode b = .ok (count, rest) ∧
    decode b = .error (.postingCount count rest.length) := by
  obtain ⟨head, entries, rfl, hhead, -, hterse⟩ := h
  obtain ⟨v, hv, hlen⟩ := hhead.decode_append entries.flatten
  refine ⟨v, entries.flatten, hv, ?_⟩
  rw [decode, hv, ok_bind]
  exact if_pos (by omega)

theorem Terse.four_le (h : Terse b ps) : 4 ≤ ps.countP (·.id = []) := by
  obtain ⟨head, entries, -, -, hentries, hterse⟩ := h
  have := three_mul_le hentries
  omega

theorem toOption_eq_iff :
    (decode b).toOption = (decodeClaimed b).toOption ↔ ¬ ∃ ps, Terse b ps := by
  constructor
  · rintro hsame ⟨ps, hterse⟩
    obtain ⟨count, rest, -, hrefused⟩ := hterse.refused
    rw [hterse.claimed, hrefused] at hsame
    cases hsame
  · intro hnone
    cases hclaimed : decodeClaimed b with
    | ok ps =>
        rcases decode_or_terse hclaimed with hread | hterse
        · rw [hread]
        · exact absurd ⟨ps, hterse⟩ hnone
    | error fault =>
        cases hread : decode b with
        | ok ps =>
            rw [claimed_of_decode hread] at hclaimed
            cases hclaimed
        | error fault' => rfl

/-- Where the number of entries looks too great they cannot all be read, unless four have no id. -/
theorem loop_of_refused (hgreat : rest.length / 3 + 1 < n) :
    (∃ fault, decodeEntries n rest = .error fault) ∨
      ∃ ps left, decodeEntries n rest = .ok (ps, left) ∧ 4 ≤ ps.countP (·.id = []) := by
  cases hloop : decodeEntries n rest with
  | error fault => exact .inl ⟨fault, rfl⟩
  | ok read =>
      obtain ⟨ps, left⟩ := read
      obtain ⟨entries, hentries, hlen, rfl⟩ := entries_of_decodeEntries hloop
      have hsize := three_mul_le hentries
      rw [List.length_append] at hgreat
      exact .inr ⟨ps, left, rfl, by omega⟩

end

/-- Whether a list is refused for the number of its entries before they are read makes no difference,
except to bytes that spell a list in fewer than three bytes an entry, even with one entry left out;
four of its postings or more have no id. Where a number is refused, that many entries cannot be read,
unless four of them have no id. A list of different ids is never refused. -/
theorem refusal_spares (b : Bytes) :
    ((decode b).toOption = (decodeClaimed b).toOption ↔ ¬ ∃ ps, Terse b ps) ∧
      (∀ ps, Terse b ps → decodeClaimed b = .ok ps ∧ 4 ≤ ps.countP (·.id = []) ∧
        ∃ count rest, Varint.decode b = .ok (count, rest) ∧
          decode b = .error (.postingCount count rest.length)) ∧
      (∀ count rest, Varint.decode b = .ok (count, rest) → rest.length / 3 + 1 < count.toNat →
        (∃ fault, decodeEntries count.toNat rest = .error fault) ∨
          ∃ ps left, decodeEntries count.toNat rest = .ok (ps, left) ∧
            4 ≤ ps.countP (·.id = [])) ∧
      ∀ ps, decodeClaimed b = .ok ps → (ps.map (·.id)).Nodup → decode b = .ok ps := by
  refine ⟨toOption_eq_iff, fun ps h => ⟨h.claimed, h.four_le, h.refused⟩,
    fun _ _ _ => loop_of_refused, ?_⟩
  intro ps hclaimed hnd
  rcases decode_or_terse hclaimed with hread | hterse
  · exact hread
  · have := hterse.four_le
    have := countP_le_one hnd
    omega

def nameless : Bytes := [4] ++ (List.replicate 4 [0, 1]).flatten

def fitting : Bytes := [3, 0, 1, 1, 0x61, 1, 1, 0x62, 1]

theorem refusal_spares_all_but_nameless :
    (∃ count rest, Varint.decode nameless = .ok (count, rest) ∧
        decode nameless = .error (.postingCount count rest.length)) ∧
      (∃ fault, decodeEntries 65535 [] = .error fault) ∧
      decode fitting = .ok [⟨[], 1⟩, ⟨[0x61], 1⟩, ⟨[0x62], 1⟩] := by
  have hnone : Numeral [0] 0 := ⟨0, rfl, rfl⟩
  have hone : Numeral [1] 1 := ⟨1, rfl, rfl⟩
  have hentry : Entry [0, 1] ⟨[], 1⟩ := .spelled (p := ⟨[], 1⟩) hnone hone
  have hentries : List.Forall₂ Entry (List.replicate 4 [0, 1]) (List.replicate 4 ⟨[], 1⟩) :=
    .cons hentry (.cons hentry (.cons hentry (.cons hentry .nil)))
  have hterse : Terse nameless (List.replicate 4 ⟨[], 1⟩) :=
    ⟨[4], List.replicate 4 [0, 1], rfl, ⟨4, rfl, rfl⟩, hentries, by decide⟩
  obtain ⟨-, hrefused, -, -⟩ := refusal_spares nameless
  obtain ⟨-, -, hloop, -⟩ := refusal_spares [0xFF, 0xFF, 0x03]
  obtain ⟨-, -, -, hdifferent⟩ := refusal_spares fitting
  refine ⟨(hrefused _ hterse).2.2, ?_, hdifferent _ rfl (by decide)⟩
  rcases hloop 65535 [] rfl (by decide) with hfails | ⟨ps, left, hread, -⟩
  · exact hfails
  · cases hread

/-- Without the refusal the list is read. -/
theorem decode_nameless : decode nameless = .error (.postingCount 4 8) ∧
    decodeClaimed nameless = .ok (List.replicate 4 ⟨[], 1⟩) :=
  ⟨rfl, rfl⟩

end Concordance.Proofs.Refusals
