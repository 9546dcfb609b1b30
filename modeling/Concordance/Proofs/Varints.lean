import Mathlib.Algebra.BigOperators.Fin
import Mathlib.Tactic.Ring
import Concordance.Proofs.Outcomes
import Concordance.Varint

namespace Concordance.Proofs.Varints

open Varint Outcomes

/-- The bytes of one number: the high bit is set on each of them but the last. -/
def IsRun (run : Bytes) : Prop :=
  ∃ more last, run = more ++ [last] ∧ (∀ b ∈ more, 128 ≤ b.toNat) ∧ last.toNat < 128

section

variable {more run b rest : Bytes}

theorem value_append (a b : Bytes) : value (a ++ b) = value a + 128 ^ a.length * value b := by
  induction a with
  | nil => simp [value]
  | cons x a ih =>
      rw [List.cons_append, value, value, ih, List.length_cons, Nat.pow_succ]
      ring

theorem value_lt (b : Bytes) : value b < 128 ^ b.length := by
  induction b with
  | nil => simp [value]
  | cons x b ih =>
      rw [value, List.length_cons, Nat.pow_succ]
      omega

theorem value_eq_sum (b : Bytes) :
    value b = ∑ i : Fin b.length, b[i].toNat % 128 * 128 ^ i.val := by
  induction b with
  | nil => rfl
  | cons x b ih =>
      have hsum := Fin.sum_univ_succ (n := b.length) fun i : Fin (b.length + 1) =>
        (x :: b)[i].toNat % 128 * 128 ^ i.val
      have hrest : ∀ i : Fin b.length,
          (x :: b)[i.succ].toNat % 128 * 128 ^ i.succ.val = 128 * (b[i].toNat % 128 * 128 ^ i.val) := by
        intro i
        rw [Fin.val_succ, Nat.pow_succ]
        simp only [Fin.getElem_fin, Fin.val_succ, List.getElem_cons_succ]
        ring
      rw [value, ih, Finset.mul_sum]
      refine Eq.trans ?_ hsum.symm
      simp only [hrest]
      simp

theorem decodeFrom_append (h : ∀ x ∈ more, 128 ≤ x.toNat) {shift : Nat}
    (hshift : shift + 7 * more.length ≤ 70) (read : UInt64) (rest : Bytes) :
    decodeFrom shift read (more ++ rest) =
      decodeFrom (shift + 7 * more.length) (read + UInt64.ofNat (value more <<< shift)) rest := by
  induction more generalizing shift read with
  | nil => simp [value]
  | cons x more ih =>
      rw [List.forall_mem_cons] at h
      rw [List.length_cons] at hshift
      have hsum : (x.toNat % 128) <<< shift + value more <<< (shift + 7) =
          value (x :: more) <<< shift := by
        simp only [Nat.shiftLeft_eq, value, Nat.pow_add]
        ring
      rw [List.cons_append, decodeFrom, if_neg (by omega)]
      simp only
      rw [if_neg (by omega), ih h.2 (by omega), UInt64.add_assoc, ← UInt64.ofNat_add, hsum,
        List.length_cons]
      congr 1
      omega

theorem decodeFrom_last {shift : Nat} (hshift : shift < 64) {last : UInt8} (h : last.toNat < 128)
    (read : UInt64) (rest : Bytes) : decodeFrom shift read (last :: rest) =
      .ok (read + UInt64.ofNat (last.toNat <<< shift), rest) := by
  rw [decodeFrom, if_neg (by omega), Nat.mod_eq_of_lt h]
  exact if_pos h

theorem decode_of_long (h : ∀ x ∈ b.take 10, 128 ≤ x.toNat) (hlen : 10 < b.length) :
    decode b = .error .varintOverflow := by
  have hten : (b.take 10).length = 10 := by
    rw [List.length_take]
    omega
  have hdrop : b.drop 10 ≠ [] := by
    rw [Ne, List.drop_eq_nil_iff]
    omega
  obtain ⟨x, rest, hx⟩ := List.exists_cons_of_ne_nil hdrop
  rw [decode, ← List.take_append_drop 10 b, decodeFrom_append h (by omega), hten, hx, decodeFrom]
  exact if_pos (by decide)

theorem decode_run (h : IsRun run) (hlen : run.length ≤ 10) (rest : Bytes) :
    decode (run ++ rest) = .ok (UInt64.ofNat (value run), rest) := by
  obtain ⟨more, last, rfl, hmore, hlast⟩ := h
  rw [List.length_append, List.length_singleton] at hlen
  have hsum : value more <<< 0 + last.toNat <<< (0 + 7 * more.length) = value (more ++ [last]) := by
    rw [value_append, value, value, Nat.mod_eq_of_lt hlast, Nat.shiftLeft_zero, Nat.zero_add,
      Nat.shiftLeft_eq, Nat.pow_mul]
    ring
  rw [decode, List.append_assoc, decodeFrom_append hmore (by omega), List.singleton_append,
    decodeFrom_last (by omega) hlast, UInt64.zero_add, ← UInt64.ofNat_add, hsum]

theorem decode_unfinished (h : ∀ x ∈ b, 128 ≤ x.toNat) (hlen : b.length ≤ 10) :
    decode b = .error .varintTruncated := by
  have hshift : 0 + 7 * b.length ≤ 70 := by omega
  have hread := decodeFrom_append h hshift 0 []
  rw [List.append_nil] at hread
  rw [decode, hread, decodeFrom]

theorem toNat_ofNat_byte {n : Nat} (h : n < 256) : (UInt8.ofNat n).toNat = n :=
  UInt8.toNat_ofNat_of_lt' h

theorem value_encodeNat (n : Nat) : value (encodeNat n) = n := by
  fun_induction encodeNat n with
  | case1 n h =>
      rw [value, value, toNat_ofNat_byte (by omega), Nat.mod_eq_of_lt h, Nat.mul_zero, Nat.add_zero]
  | case2 n h ih =>
      rw [value, ih, toNat_ofNat_byte (by omega)]
      omega

theorem isRun_encodeNat (n : Nat) : IsRun (encodeNat n) := by
  fun_induction encodeNat n with
  | case1 n h => exact ⟨[], _, rfl, by simp, by rwa [toNat_ofNat_byte (by omega)]⟩
  | case2 n h ih =>
      obtain ⟨more, last, hrun, hmore, hlast⟩ := ih
      refine ⟨_ :: more, last, by rw [hrun, List.cons_append], ?_, hlast⟩
      exact List.forall_mem_cons.mpr ⟨by rw [toNat_ofNat_byte (by omega)]; omega, hmore⟩

theorem length_encodeNat_le (k : Nat) {n : Nat} (h : n < 128 ^ (k + 1)) :
    (encodeNat n).length ≤ k + 1 := by
  induction k generalizing n with
  | zero =>
      have hn : n < 128 := h
      rw [encodeNat, dif_pos hn]
      exact Nat.le_refl 1
  | succ k ih =>
      rw [encodeNat]
      split
      · exact Nat.le_add_left 1 _
      · rw [List.length_cons]
        have hdiv : n / 128 < 128 ^ (k + 1) := Nat.div_lt_of_lt_mul (by rw [Nat.pow_succ] at h; omega)
        exact Nat.succ_le_succ (ih hdiv)

theorem decode_encode (n : UInt64) (rest : Bytes) : decode (encode n ++ rest) = .ok (n, rest) := by
  have hn : n.toNat < 128 ^ (9 + 1) := n.toNat_lt.trans (by decide)
  rw [encode, decode_run (isRun_encodeNat _) (length_encodeNat_le 9 hn), value_encodeNat,
    UInt64.ofNat_toNat]

theorem run_cases (b : Bytes) :
    (∃ run rest, IsRun run ∧ b = run ++ rest) ∨ ∀ x ∈ b, 128 ≤ x.toNat := by
  induction b with
  | nil => exact .inr (by simp)
  | cons x b ih =>
      by_cases hx : x.toNat < 128
      · exact .inl ⟨[x], b, ⟨[], x, rfl, by simp, hx⟩, rfl⟩
      · rcases ih with ⟨run, rest, ⟨more, last, rfl, hmore, hlast⟩, rfl⟩ | hb
        · refine .inl ⟨x :: more ++ [last], rest, ⟨x :: more, last, rfl, ?_, hlast⟩, by simp⟩
          exact List.forall_mem_cons.mpr ⟨Nat.le_of_not_lt hx, hmore⟩
        · exact .inr (List.forall_mem_cons.mpr ⟨Nat.le_of_not_lt hx, hb⟩)

/-- A run that is too long begins with ten bytes that have the high bit. -/
theorem IsRun.take (h : IsRun run) (hlen : 10 < run.length) (rest : Bytes) :
    ∀ x ∈ (run ++ rest).take 10, 128 ≤ x.toNat := by
  obtain ⟨more, last, rfl, hmore, -⟩ := h
  rw [List.length_append, List.length_singleton] at hlen
  intro x hx
  rw [List.append_assoc, List.take_append_of_le_length (by omega)] at hx
  exact hmore x (List.mem_of_mem_take hx)

theorem decode_eq_ok_iff {v : UInt64} : decode b = .ok (v, rest) ↔
    ∃ run, IsRun run ∧ run.length ≤ 10 ∧ b = run ++ rest ∧ v = UInt64.ofNat (value run) := by
  constructor
  · intro hread
    rcases run_cases b with ⟨run, left, hrun, rfl⟩ | hb
    · by_cases hlen : run.length ≤ 10
      · rw [decode_run hrun hlen] at hread
        cases hread
        exact ⟨run, hrun, hlen, rfl, rfl⟩
      · rw [decode_of_long (hrun.take (by omega) left)
          (by rw [List.length_append]; omega)] at hread
        cases hread
    · by_cases hlen : b.length ≤ 10
      · rw [decode_unfinished hb hlen] at hread
        cases hread
      · rw [decode_of_long (fun x hx => hb x (List.mem_of_mem_take hx)) (by omega)] at hread
        cases hread
  · rintro ⟨run, hrun, hlen, rfl, rfl⟩
    exact decode_run hrun hlen rest

/-- What a run spells has at most 64 bits unless it has a tenth byte, which can add only one. -/
theorem IsRun.value_lt_iff (h : IsRun run) (hlen : run.length ≤ 10) :
    value run < 2 ^ 64 ↔ ∀ x ∈ run.drop 9, x.toNat ≤ 1 := by
  obtain ⟨more, last, rfl, -, hlast⟩ := h
  rw [List.length_append, List.length_singleton] at hlen
  by_cases hnine : more.length = 9
  · have hmore := value_lt more
    rw [hnine] at hmore
    rw [← hnine, List.drop_left, List.forall_mem_singleton, value_append, hnine, value, value,
      Nat.mod_eq_of_lt hlast]
    omega
  · have hshort : (more ++ [last]).length ≤ 9 := by
      rw [List.length_append, List.length_singleton]
      omega
    have hpow : 128 ^ (more ++ [last]).length ≤ 128 ^ 9 :=
      Nat.pow_le_pow_right (by decide) hshort
    rw [List.drop_eq_nil_of_le hshort]
    exact ⟨fun _ => by simp, fun _ => by have := value_lt (more ++ [last]); omega⟩

end

/-- Bytes are read up to the first without the high bit, which is at most the tenth. What is read is
what they spell, modulo 2^64, so that it is the number itself just if the tenth byte, where there is
one, adds no more than one bit. If there is no such byte, either the bytes have run out or there are
more than ten of them. -/
theorem decode_spelled (b : Bytes) :
    (∃ run rest v, IsRun run ∧ run.length ≤ 10 ∧ b = run ++ rest ∧ decode b = .ok (v, rest) ∧
      v.toNat = (∑ i : Fin run.length, run[i].toNat % 128 * 128 ^ i.val) % 2 ^ 64 ∧
      (v.toNat = ∑ i : Fin run.length, run[i].toNat % 128 * 128 ^ i.val ↔
        ∀ x ∈ run.drop 9, x.toNat ≤ 1)) ∨
    (decode b = .error .varintTruncated ∧ (∀ x ∈ b, 128 ≤ x.toNat) ∧ b.length ≤ 10) ∨
    (decode b = .error .varintOverflow ∧ (∀ x ∈ b.take 10, 128 ≤ x.toNat) ∧ 10 < b.length) := by
  rcases run_cases b with ⟨run, rest, hrun, rfl⟩ | hb
  · by_cases hlen : run.length ≤ 10
    · left
      have hv : (UInt64.ofNat (value run)).toNat = value run % 2 ^ 64 := UInt64.toNat_ofNat'
      refine ⟨run, rest, _, hrun, hlen, rfl, decode_run hrun hlen rest, ?_, ?_⟩
      · rw [hv, value_eq_sum]
      · rw [hv, ← value_eq_sum, ← hrun.value_lt_iff hlen, Nat.mod_eq_iff_lt (by decide)]
    · have htake := hrun.take (Nat.lt_of_not_le hlen) rest
      have hlong : 10 < (run ++ rest).length := by
        rw [List.length_append]
        omega
      exact .inr (.inr ⟨decode_of_long htake hlong, htake, hlong⟩)
  · by_cases hlen : b.length ≤ 10
    · exact .inr (.inl ⟨decode_unfinished hb hlen, hb, hlen⟩)
    · have htake : ∀ x ∈ b.take 10, 128 ≤ x.toNat := fun x hx => hb x (List.mem_of_mem_take hx)
      exact .inr (.inr ⟨decode_of_long htake (Nat.lt_of_not_le hlen), htake, Nat.lt_of_not_le hlen⟩)

def wide : Bytes := List.replicate 9 128 ++ [2]

theorem decode_wide :
    ∑ i : Fin wide.length, wide[i].toNat % 128 * 128 ^ i.val = 2 ^ 64 ∧ decode wide = .ok (0, []) := by
  rw [← value_eq_sum]
  decide +kernel

end Concordance.Proofs.Varints
