import Mathlib.RingTheory.Coprime.Lemmas
import Concordance.Proofs.Headers

namespace Concordance.Proofs.Bursts

open Polynomial
open Index Checksums Headers
open LittleEndian (u32 capacity decode_lt encode_decode)

section

variable {x y p q : Bytes}

theorem message_append (a b : Bytes) :
    message (a ++ b) = message a * X ^ (8 * b.length) + message b := by
  induction a with
  | nil => rw [List.nil_append, message, zero_mul, zero_add]
  | cons d a ih =>
      rw [List.cons_append, message, message, ih, List.length_append]
      ring

theorem digits_split (n k m : Nat) :
    digits (n + k) m = digits n (m % 2 ^ n) * X ^ k + digits k (m / 2 ^ n) := by
  rw [digits, digits, digits, Finset.sum_range_add, Finset.sum_mul]
  congr 1
  · apply Finset.sum_congr rfl
    intro i hi
    rw [Finset.mem_range] at hi
    have hpower : n + k - 1 - i = n - 1 - i + k := by omega
    simp only [Nat.testBit_mod_two_pow, hi, decide_true, Bool.true_and, ite_mul, zero_mul, hpower,
      pow_add]
  · apply Finset.sum_congr rfl
    intro i _
    have hpower : n + k - 1 - (n + i) = k - 1 - i := by omega
    rw [Nat.testBit_div_two_pow, hpower, Nat.add_comm i]

theorem message_encode (w n : Nat) : message (LittleEndian.encode w n) = digits (8 * w) n := by
  induction w generalizing n with
  | zero => rw [LittleEndian.encode, message, digits, Finset.range_zero, Finset.sum_empty]
  | succ w ih =>
      have hwidth : 8 * (w + 1) = 8 + 8 * w := by omega
      rw [LittleEndian.encode, message, ih, LittleEndian.length_encode, hwidth, digits_split,
        UInt8.toNat_ofNat']
      rfl

theorem message_eq_digits (b : Bytes) :
    message b = digits (8 * b.length) (LittleEndian.decode b) := by
  rw [← message_encode, encode_decode]

theorem capacity_eq (w : Nat) : capacity w = 2 ^ (8 * w) := by
  induction w with
  | zero => rfl
  | succ w ih =>
      rw [capacity, ih, Nat.mul_succ, pow_add]
      exact Nat.mul_comm 256 _

theorem message_injective (hlength : x.length = y.length) (h : message x = message y) : x = y := by
  have hx := decode_lt x
  have hy := decode_lt y
  rw [capacity_eq] at hx hy
  rw [message_eq_digits, message_eq_digits, ← hlength] at h
  rw [← encode_decode x, ← encode_decode y, ← hlength,
    digits_injective hx (hlength ▸ hy) h]

theorem degree_message_lt (b : Bytes) : (message b).degree < (8 * b.length : Nat) := by
  rw [message_eq_digits]
  exact degree_digits_lt _ _

theorem coprime_generator (k : Nat) : IsCoprime generator (X ^ k) := by
  apply IsCoprime.pow_right
  refine ⟨1, -(X ^ 31 + X ^ 25 + X ^ 22 + X ^ 21 + X ^ 15 + X ^ 11 + X ^ 10 + X ^ 9 + X ^ 7 +
    X ^ 6 + X ^ 4 + X ^ 3 + X + 1), ?_⟩
  rw [generator]
  ring

/-- Between two messages that leave the same remainder there is no burst of 32 bits. -/
theorem eq_of_burst (hlength : x.length = y.length) (hshort : x.length ≤ 4)
    (hdvd : generator ∣ message (p ++ (x ++ q)) - message (p ++ (y ++ q))) : x = y := by
  have hdifference : message (p ++ (x ++ q)) - message (p ++ (y ++ q)) =
      (message x - message y) * X ^ (8 * q.length) := by
    simp only [message_append, List.length_append, hlength]
    ring
  rw [hdifference] at hdvd
  have hburst := (coprime_generator _).dvd_of_dvd_mul_right hdvd
  have hx : (message x).degree < generator.degree := by
    rw [degree_generator]
    exact (degree_message_lt x).trans_le (by exact_mod_cast (by omega : 8 * x.length ≤ 32))
  have hy : (message y).degree < generator.degree := by
    rw [degree_generator]
    exact (degree_message_lt y).trans_le (by exact_mod_cast (by omega : 8 * y.length ≤ 32))
  have hdegree := (degree_sub_le (message x) (message y)).trans_lt (max_lt hx hy)
  exact message_injective hlength (sub_eq_zero.mp (eq_zero_of_dvd_of_degree_lt hburst hdegree))

/-- What a message of `n` bytes leaves with its checksum behind it, up to multiples of the
generator. -/
noncomputable def residue (n : Nat) : (ZMod 2)[X] := digits 32 0xFFFFFFFF * (X ^ (8 * n) + 1)

theorem dvd_sealed (m : Bytes) :
    generator ∣ message (m ++ u32 (Crc32.checksum m)) - residue m.length := by
  have hones : (0xFFFFFFFF : UInt32).toNat = 0xFFFFFFFF := rfl
  have hchecksum := checksum_eq_iff.mp (rfl : Crc32.checksum m = Crc32.checksum m)
  rw [UInt32.toNat_xor, digits_xor, hones] at hchecksum
  have hdvd := dvd_modByMonic_sub
    (message m * X ^ 32 + digits 32 0xFFFFFFFF * X ^ (8 * m.length)) generator
  rw [← hchecksum] at hdvd
  have hcode : message (u32 (Crc32.checksum m)) = digits 32 (Crc32.checksum m).toNat :=
    message_encode 4 _
  have heq : message (m ++ u32 (Crc32.checksum m)) - residue m.length =
      digits 32 (Crc32.checksum m).toNat + digits 32 0xFFFFFFFF -
        (message m * X ^ 32 + digits 32 0xFFFFFFFF * X ^ (8 * m.length)) := by
    rw [message_append, hcode, LittleEndian.length_u32, residue]
    simp only [CharTwo.sub_eq_add]
    ring
  rw [heq]
  exact hdvd

theorem dvd_header (h : Header) : generator ∣ message h.sealed - residue 48 := by
  rw [Header.sealed, ← h.length_payload]
  exact dvd_sealed h.payload

theorem dvd_headers (h h' : Header) : generator ∣ message h.sealed - message h'.sealed := by
  obtain ⟨k, hk⟩ := dvd_header h
  obtain ⟨k', hk'⟩ := dvd_header h'
  have hsplit : message h.sealed - message h'.sealed = generator * (k - k') := by
    rw [mul_sub, ← hk, ← hk']
    ring
  exact Dvd.intro _ hsplit.symm

end

section

variable {b d : Bytes} {start : Nat}

theorem split_window (b : Bytes) (start : Nat) :
    b = b.take start ++ (b.slice start 4 ++ b.drop (start + 4)) := by
  rw [Bytes.slice, ← List.drop_drop, List.take_append_drop, List.take_append_drop]

theorem take_eq_of_outside (h : ∀ i, i < start ∨ start + 4 ≤ i → b[i]? = d[i]?) :
    b.take start = d.take start := by
  apply List.ext_getElem?
  intro i
  rw [List.getElem?_take, List.getElem?_take]
  split
  · rename_i hi
    exact h i (.inl hi)
  · rfl

theorem drop_eq_of_outside (h : ∀ i, i < start ∨ start + 4 ≤ i → b[i]? = d[i]?) :
    b.drop (start + 4) = d.drop (start + 4) := by
  apply List.ext_getElem?
  intro i
  rw [List.getElem?_drop, List.getElem?_drop]
  exact h _ (.inr (Nat.le_add_right _ _))

theorem decode_of_start (hlength : Header.size ≤ b.length) (hmagic : b.take 8 = Header.magic)
    (hversion : Header.u32At b 8 = Header.version) {fault : FormatFault}
    (hread : Header.decode b = .error fault) : fault = .headerChecksum := by
  rw [Header.decode, if_neg (Nat.not_lt.mpr hlength), if_neg (not_not_intro hmagic),
    if_neg (not_not_intro hversion)] at hread
  dsimp only at hread
  split at hread
  · exact (Except.error.inj hread).symm
  · cases hread

theorem encode_eq_of_window {h h' : Header} (hstart : start + 4 ≤ 52)
    (hlength : b.length = Header.size)
    (houtside : ∀ i, i < start ∨ start + 4 ≤ i → b[i]? = h.encode[i]?)
    (hother : b.take 52 = h'.sealed) : b = h.encode := by
  have hfour : ∀ {d : Bytes}, d.length = Header.size → (d.slice start 4).length = 4 := by
    intro d hd
    rw [Cursors.length_slice, hd, Header.size]
    omega
  have htake : ∀ {d : Bytes}, d.length = Header.size → d.take 52 =
      d.take start ++ (d.slice start 4 ++ (d.drop (start + 4)).take (48 - start)) := by
    intro d hd
    have hwidth : 52 = start + (4 + (48 - start)) := by omega
    conv_lhs => rw [hwidth]
    rw [List.take_add, List.take_add, List.drop_drop, Bytes.slice]
  have hwindow : b.slice start 4 = h.encode.slice start 4 := by
    apply eq_of_burst (p := h.encode.take start)
      (q := (h.encode.drop (start + 4)).take (48 - start))
    · rw [hfour hlength, hfour h.length_encode]
    · rw [hfour hlength]
    · rw [← htake h.length_encode, take_encode, ← take_eq_of_outside houtside,
        ← drop_eq_of_outside houtside, ← htake hlength, hother]
      exact dvd_headers h' h
  rw [split_window b start, split_window h.encode start, take_eq_of_outside houtside, hwindow,
    drop_eq_of_outside houtside]

end

/-- A header of which at least one byte is changed, and none but four in a row of those that are
read, is refused, be it the payload that is hit, the checksum or both. Behind the version it is the
checksum for which it is refused. The checksum is the remainder of a division by the generator
polynomial. -/
theorem decode_burst :
    (∀ (h : Header) (b : Bytes) (start : Nat), start + 4 ≤ 52 → b.length = h.encode.length →
      b ≠ h.encode → (∀ i, i < start ∨ start + 4 ≤ i → b[i]? = h.encode[i]?) →
      ∃ fault, Header.decode b = .error fault ∧ Refused b fault ∧
        (12 ≤ start → fault = .headerChecksum)) ∧
    ∀ (m : Bytes) (c : UInt32), Crc32.checksum m = c ↔ digits 32 (c ^^^ 0xFFFFFFFF).toNat =
      (message m * X ^ 32 + digits 32 0xFFFFFFFF * X ^ (8 * m.length)) %ₘ generator := by
  refine ⟨fun h b start hstart hlength hchanged houtside => ?_, fun m c => checksum_eq_iff⟩
  rw [h.length_encode] at hlength
  rcases decode_cases b with ⟨h', -, haccepted⟩ | ⟨fault, hread, hrefused⟩
  · exact absurd (encode_eq_of_window hstart hlength houtside haccepted.take_eq) hchanged
  · refine ⟨fault, hread, hrefused, fun hbehind => ?_⟩
    have hbegin : b.take 12 = h.encode.take 12 := by
      have htake := congrArg (List.take 12) (take_eq_of_outside houtside)
      rwa [List.take_take, List.take_take, Nat.min_eq_left hbehind] at htake
    have hwritten := accepted_of_decode (Codecs.decode_header h)
    have hmagic : b.take 8 = Header.magic := by
      rw [← hwritten.magic, ← Nat.min_eq_left (by decide : 8 ≤ 12), ← List.take_take, hbegin,
        List.take_take]
    have hversion : Header.u32At b 8 = Header.version := by
      rw [← hwritten.version, Header.u32At, Header.u32At, ← slice_take (m := 12) (by omega) b,
        hbegin, slice_take (by omega)]
    exact decode_of_start (Nat.le_of_eq hlength.symm) hmagic hversion hread

def struck : Bytes := sample.encode.overwrite 46 [0xFF, 0xFF, 0xFF, 0xFF]

theorem getElem?_struck (i : Nat) : struck[i]? = if i < 46 then some (sample.encode[i]?.getD 0)
    else if i < 50 then [0xFF, 0xFF, 0xFF, 0xFF][i - 46]? else sample.encode[i]? :=
  Bytes.getElem?_overwrite _ 46 (by decide) i

theorem struck_ne : struck ≠ sample.encode := by
  intro heq
  have hbyte := congrArg (·[46]?) heq
  have hstruck : struck[46]? = some 0xFF := getElem?_struck 46
  have hsample : sample.encode[46]? = some 0 := rfl
  simp only [hstruck, hsample] at hbyte
  exact absurd hbyte (by decide)

theorem decode_burst_struck : struck ≠ sample.encode ∧ struck.take 46 = sample.encode.take 46 ∧
    struck.drop 50 = sample.encode.drop 50 ∧ Header.decode struck = .error .headerChecksum := by
  have hlength : struck.length = sample.encode.length := by
    rw [struck, Bytes.length_overwrite _ _ _ (by decide), sample.length_encode]
    decide
  have houtside : ∀ i, i < 46 ∨ 46 + 4 ≤ i → struck[i]? = sample.encode[i]? := by
    rintro i (hbefore | hbehind)
    · have hi : i < sample.encode.length := by
        rw [sample.length_encode, Header.size]
        omega
      rw [getElem?_struck, if_pos hbefore, List.getElem?_eq_getElem hi, Option.getD_some]
    · rw [getElem?_struck, if_neg (by omega), if_neg (by omega)]
  obtain ⟨fault, hread, -, hfault⟩ :=
    decode_burst.1 sample struck 46 (by decide) hlength struck_ne houtside
  rw [hfault (by decide)] at hread
  exact ⟨struck_ne, take_eq_of_outside houtside, drop_eq_of_outside houtside, hread⟩

end Concordance.Proofs.Bursts
