import Mathlib.Algebra.CharP.Two
import Mathlib.Algebra.Field.ZMod
import Mathlib.Algebra.Polynomial.Div
import Mathlib.Tactic.ComputeDegree
import Concordance.Crc32

namespace Concordance.Proofs.Checksums

open Polynomial Crc32

/-- The generator polynomial of IEEE 802.3. -/
noncomputable def generator : (ZMod 2)[X] :=
  X ^ 32 + X ^ 26 + X ^ 23 + X ^ 22 + X ^ 16 + X ^ 12 + X ^ 11 + X ^ 10 + X ^ 8 + X ^ 7 + X ^ 5 +
    X ^ 4 + X ^ 2 + X + 1

theorem monic_generator : generator.Monic := by
  rw [generator]
  monicity!

theorem degree_generator : generator.degree = 32 := by
  rw [generator]
  compute_degree!

/-- The last `n` binary digits of a number as coefficients, the lowest digit with the highest
power. -/
noncomputable def digits (n m : Nat) : (ZMod 2)[X] :=
  ∑ i ∈ Finset.range n, if m.testBit i then X ^ (n - 1 - i) else 0

/-- The bits of a message as coefficients. Of each byte the lowest bit comes first, and the first bit
of all has the highest power. -/
noncomputable def message : Bytes → (ZMod 2)[X]
  | [] => 0
  | b :: rest => digits 8 b.toNat * X ^ (8 * rest.length) + message rest

theorem degree_digits_lt (n m : Nat) : (digits n m).degree < n := by
  apply (Polynomial.degree_sum_le _ _).trans_lt
  refine (Finset.sup_lt_iff (WithBot.bot_lt_coe n)).mpr fun i hi => ?_
  rw [Finset.mem_range] at hi
  split
  · have hpower : n - 1 - i < n := by omega
    rw [degree_X_pow]
    exact WithBot.coe_lt_coe.mpr hpower
  · rw [degree_zero]
    exact WithBot.bot_lt_coe n

theorem digits_xor (n a b : Nat) : digits n (a ^^^ b) = digits n a + digits n b := by
  rw [digits, digits, digits, ← Finset.sum_add_distrib]
  apply Finset.sum_congr rfl
  intro i _
  rw [Nat.testBit_xor]
  cases a.testBit i <;> cases b.testBit i <;> simp [CharTwo.add_self_eq_zero]

/-- Shifting a number by one place multiplies by X, but for the digit that drops out. -/
theorem digits_shiftRight {n m : Nat} (hm : m < 2 ^ (n + 1)) :
    X * digits (n + 1) m = digits (n + 1) (m >>> 1) + if m.testBit 0 then X ^ (n + 1) else 0 := by
  have htop : (m >>> 1).testBit n = false := by
    rw [Nat.testBit_shiftRight]
    exact Nat.testBit_lt_two_pow (by rwa [Nat.add_comm 1])
  rw [digits, digits, Finset.sum_range_succ', Finset.sum_range_succ, htop, mul_add, Finset.mul_sum]
  congr 1
  · rw [if_neg Bool.false_ne_true, add_zero]
    apply Finset.sum_congr rfl
    intro i hi
    rw [Finset.mem_range] at hi
    have hpower : n + 1 - 1 - i = (n + 1 - 1 - (i + 1)) + 1 := by omega
    rw [Nat.testBit_shiftRight, Nat.add_comm 1, mul_ite, mul_zero, hpower, pow_succ']
  · rw [mul_ite, mul_zero, ← pow_succ']
    rfl

theorem digits_add {n m : Nat} (hm : m < 2 ^ n) (k : Nat) :
    digits (n + k) m = digits n m * X ^ k := by
  have hhigh : ∀ i, (m.testBit (n + i)) = false := fun i =>
    Nat.testBit_lt_two_pow (Nat.lt_of_lt_of_le hm (Nat.pow_le_pow_right (by decide) (by omega)))
  rw [digits, digits, Finset.sum_range_add, Finset.sum_mul]
  simp only [hhigh, Bool.false_eq_true, if_false, Finset.sum_const_zero, add_zero]
  apply Finset.sum_congr rfl
  intro i hi
  rw [Finset.mem_range] at hi
  have hpower : n + k - 1 - i = n - 1 - i + k := by omega
  rw [ite_mul, zero_mul, hpower, pow_add]

theorem generator_eq : generator = X ^ 32 + digits 32 polynomial.toNat := by
  have hnumber : polynomial.toNat = 0xEDB88320 := rfl
  rw [hnumber, generator, digits]
  simp [Finset.sum_range_succ, Nat.testBit, add_assoc]

theorem digits_shift (r : UInt32) : X * digits 32 r.toNat =
    digits 32 (shift r).toNat + if r.toNat.testBit 0 then generator else 0 := by
  have hright : (r >>> 1).toNat = r.toNat >>> 1 := rfl
  have hbit : r &&& 1 = 1 ↔ r.toNat.testBit 0 = true := by
    rw [← UInt32.toNat_inj, UInt32.toNat_and, Nat.testBit_zero, decide_eq_true_eq]
    exact (Nat.and_one_is_mod _).congr_left
  rw [digits_shiftRight (n := 31) r.toNat_lt, shift]
  by_cases hr : r.toNat.testBit 0 = true
  · rw [if_pos hr, if_pos hr, if_pos (hbit.mpr hr), UInt32.toNat_xor, digits_xor, hright,
      generator_eq, add_assoc, add_left_comm (digits 32 polynomial.toNat),
      CharTwo.add_self_eq_zero, add_zero]
  · rw [if_neg hr, if_neg hr, if_neg (hbit.not.mpr hr), hright]

/-- Up to multiples of the generator, a shift of the register multiplies by X. -/
theorem dvd_shifts (n : Nat) (r : UInt32) :
    generator ∣ X ^ n * digits 32 r.toNat - digits 32 (shifts n r).toNat := by
  induction n generalizing r with
  | zero => simp [shifts]
  | succ n ih =>
      have hone : generator ∣ X * digits 32 r.toNat - digits 32 (shift r).toNat := by
        rw [digits_shift, add_sub_cancel_left]
        split
        · exact dvd_rfl
        · exact dvd_zero _
      have hsplit : X ^ (n + 1) * digits 32 r.toNat - digits 32 (shifts n (shift r)).toNat =
          X ^ n * (X * digits 32 r.toNat - digits 32 (shift r).toNat) +
            (X ^ n * digits 32 (shift r).toNat - digits 32 (shifts n (shift r)).toNat) := by ring
      rw [shifts, hsplit]
      exact dvd_add (dvd_mul_of_dvd_right hone _) (ih (shift r))

theorem dvd_step (r : UInt32) (b : UInt8) : generator ∣
    X ^ 8 * digits 32 r.toNat + X ^ 32 * digits 8 b.toNat - digits 32 (step r b).toNat := by
  have hb : digits 32 b.toUInt32.toNat = digits 8 b.toNat * X ^ 24 := by
    rw [UInt8.toNat_toUInt32]
    exact digits_add b.toNat_lt 24
  have h := dvd_shifts 8 (r ^^^ b.toUInt32)
  rw [UInt32.toNat_xor, digits_xor, hb, mul_add, mul_left_comm, ← pow_add, mul_comm (digits 8 _)] at h
  exact h

theorem dvd_foldl (m : Bytes) (r : UInt32) : generator ∣
    X ^ (8 * m.length) * digits 32 r.toNat + X ^ 32 * message m -
      digits 32 (m.foldl step r).toNat := by
  induction m generalizing r with
  | nil => simp [message]
  | cons b m ih =>
      have hsplit : X ^ (8 * (b :: m).length) * digits 32 r.toNat + X ^ 32 * message (b :: m) -
          digits 32 (m.foldl step (step r b)).toNat =
            X ^ (8 * m.length) * (X ^ 8 * digits 32 r.toNat + X ^ 32 * digits 8 b.toNat -
              digits 32 (step r b).toNat) +
            (X ^ (8 * m.length) * digits 32 (step r b).toNat + X ^ 32 * message m -
              digits 32 (m.foldl step (step r b)).toNat) := by
        rw [message, List.length_cons, Nat.mul_succ]
        ring
      rw [List.foldl_cons, hsplit]
      exact dvd_add (dvd_mul_of_dvd_right (dvd_step r b) _) (ih (step r b))

theorem coeff_digits {n i : Nat} (hi : i < n) (m : Nat) :
    (digits n m).coeff (n - 1 - i) = if m.testBit i then 1 else 0 := by
  rw [digits, finsetSum_coeff, Finset.sum_eq_single i]
  · split <;> simp
  · intro j hj hne
    rw [Finset.mem_range] at hj
    have hpower : n - 1 - i ≠ n - 1 - j := by omega
    split <;> simp [coeff_X_pow, hpower]
  · exact fun hout => absurd (Finset.mem_range.mpr hi) hout

theorem digits_injective {n a b : Nat} (ha : a < 2 ^ n) (hb : b < 2 ^ n)
    (h : digits n a = digits n b) : a = b := by
  apply Nat.eq_of_testBit_eq
  intro i
  by_cases hi : i < n
  · have hcoeff := congrArg (coeff · (n - 1 - i)) h
    simp only [coeff_digits hi] at hcoeff
    cases hx : a.testBit i <;> cases hy : b.testBit i <;> simp [hx, hy] at hcoeff ⊢
  · have hpow : 2 ^ n ≤ 2 ^ i := Nat.pow_le_pow_right (by decide) (Nat.le_of_not_lt hi)
    rw [Nat.testBit_lt_two_pow (Nat.lt_of_lt_of_le ha hpow),
      Nat.testBit_lt_two_pow (Nat.lt_of_lt_of_le hb hpow)]

/-- The checksum is the one whose complement is the remainder of the message, with its first 32 bits
complemented and 32 zeros put behind it. -/
theorem checksum_eq_iff {m : Bytes} {c : UInt32} : checksum m = c ↔
    digits 32 (c ^^^ 0xFFFFFFFF).toNat =
      (message m * X ^ 32 + digits 32 0xFFFFFFFF * X ^ (8 * m.length)) %ₘ generator := by
  have hones : (0xFFFFFFFF : UInt32).toNat = 0xFFFFFFFF := rfl
  have hdegree : (digits 32 (m.foldl step 0xFFFFFFFF).toNat).degree < generator.degree := by
    rw [degree_generator]
    exact degree_digits_lt 32 _
  have hdvd := dvd_foldl m 0xFFFFFFFF
  rw [hones, add_comm, mul_comm (X ^ 32), mul_comm (X ^ _)] at hdvd
  rw [modByMonic_eq_of_dvd_sub monic_generator hdvd,
    (modByMonic_eq_self_iff monic_generator).mpr hdegree, checksum]
  constructor
  · rintro rfl
    rw [UInt32.xor_assoc, UInt32.xor_self, UInt32.xor_zero]
  · intro h
    have hregister := UInt32.toNat_inj.mp (digits_injective (UInt32.toNat_lt _) (UInt32.toNat_lt _) h)
    rw [← hregister, UInt32.xor_assoc, UInt32.xor_self, UInt32.xor_zero]

end Concordance.Proofs.Checksums
