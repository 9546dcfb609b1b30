import Concordance.Proofs.Varints

namespace Concordance.Proofs.Spellings

open Varint Varints

theorem toNat_shiftRight_seven (n : UInt64) : (n >>> 7).toNat = n.toNat / 128 := by
  rw [UInt64.toNat_shiftRight]
  exact Nat.shiftRight_eq_div_pow n.toNat 7

theorem shiftRight_seven_eq_zero_iff (n : UInt64) : n >>> 7 = 0 ↔ n.toNat < 128 := by
  rw [← UInt64.toNat_inj, toNat_shiftRight_seven, UInt64.toNat_zero]
  omega

def shiftOut (out : Bytes) (n : UInt64) : Bytes :=
  if n >>> 7 = 0 then out ++ [(n &&& 0x7F).toUInt8]
  else shiftOut (out ++ [(n &&& 0x7F).toUInt8 ||| 0x80]) (n >>> 7)
termination_by n.toNat
decreasing_by
  rename_i h
  rw [shiftRight_seven_eq_zero_iff] at h
  rw [toNat_shiftRight_seven]
  omega

/-- The rest of a number, and how many bytes have been taken when it ends. Bits join those that have
been read, and what is shifted out at the top is lost. -/
def shiftInFrom (shift : Nat) (read : UInt64) (taken : Nat) :
    Bytes → Except FormatFault (UInt64 × Nat)
  | [] => .error .varintTruncated
  | b :: rest =>
      if 64 ≤ shift then .error .varintOverflow
      else
        let read := read ||| (b &&& 0x7F).toUInt64 <<< UInt64.ofNat shift
        if b &&& 0x80 = 0 then .ok (read, taken + 1)
        else shiftInFrom (shift + 7) read (taken + 1) rest

def shiftIn (b : Bytes) : Except FormatFault (UInt64 × Nat) := shiftInFrom 0 0 0 b

def leadingZeros (n : UInt64) : Nat := n.toBitVec.clz.toNat

section

variable {n : UInt64} {b rest p : Bytes}

theorem low_bits (n : UInt64) : (n &&& 0x7F).toUInt8 = UInt8.ofNat (n.toNat % 128) := by
  have hand : n.toNat &&& 127 = n.toNat % 128 := Nat.and_two_pow_sub_one_eq_mod n.toNat 7
  rw [← UInt8.toNat_inj, UInt64.toNat_toUInt8, UInt64.toNat_and, toNat_ofNat_byte (by omega)]
  change (n.toNat &&& 127) % 2 ^ 8 = _
  rw [hand]
  omega

theorem ofNat_or_high {m : Nat} (h : m < 128) :
    UInt8.ofNat m ||| 0x80 = UInt8.ofNat (m + 128) := by
  have hadd := Nat.two_pow_add_eq_or_of_lt (i := 7) h 1
  rw [← UInt8.toNat_inj, UInt8.toNat_or, toNat_ofNat_byte (by omega), toNat_ofNat_byte (by omega),
    Nat.or_comm, Nat.add_comm]
  exact hadd.symm

theorem shiftOut_eq (out : Bytes) (n : UInt64) : shiftOut out n = out ++ encode n := by
  fun_induction shiftOut out n with
  | case1 out n h =>
      have hsmall := (shiftRight_seven_eq_zero_iff n).mp h
      rw [low_bits, Nat.mod_eq_of_lt hsmall, encode, encodeNat, dif_pos hsmall]
  | case2 out n h ih =>
      have hgreat : ¬ n.toNat < 128 := fun hlt => h ((shiftRight_seven_eq_zero_iff n).mpr hlt)
      rw [ih, low_bits, ofNat_or_high (Nat.mod_lt _ (by decide)), encode, toNat_shiftRight_seven,
        List.append_assoc, List.singleton_append, encode, encodeNat.eq_def n.toNat, dif_neg hgreat]

theorem and_high_eq_zero_iff (x : UInt8) : x &&& 0x80 = 0 ↔ x.toNat < 128 := by
  have hbyte : ∀ i : Fin 256, i.val &&& 128 = 0 ↔ i.val < 128 := by decide +kernel
  rw [← UInt8.toNat_inj, UInt8.toNat_and]
  exact hbyte ⟨x.toNat, x.toNat_lt⟩

theorem toNat_and_low (x : UInt8) : (x &&& 0x7F).toNat = x.toNat % 128 := by
  rw [UInt8.toNat_and]
  exact Nat.and_two_pow_sub_one_eq_mod x.toNat 7

section

variable {read part : UInt64} {shift y : Nat}

theorem toNat_or_above (hread : read.toNat < 2 ^ shift) (hpart : part.toNat = 2 ^ shift * y) :
    (read ||| part).toNat = 2 ^ shift * y + read.toNat := by
  rw [UInt64.toNat_or, Nat.or_comm, hpart, ← Nat.two_pow_add_eq_or_of_lt hread]

theorem or_eq_add (hread : read.toNat < 2 ^ shift) (hpart : part.toNat = 2 ^ shift * y) :
    read ||| part = read + part := by
  have hor := toNat_or_above hread hpart
  have hlt := (read ||| part).toNat_lt
  rw [← UInt64.toNat_inj, UInt64.toNat_add, hor, hpart, Nat.add_comm, Nat.mod_eq_of_lt]
  omega

theorem or_lt (hread : read.toNat < 2 ^ shift) (hpart : part.toNat = 2 ^ shift * y) (hy : y < 128) :
    (read ||| part).toNat < 2 ^ (shift + 7) := by
  have hle := Nat.mul_le_mul_left (2 ^ shift) (Nat.le_of_lt_succ hy)
  rw [toNat_or_above hread hpart, Nat.pow_add]
  omega

end

theorem shifted_byte (x : UInt8) {shift : Nat} (h : shift < 64) :
    (x &&& 0x7F).toUInt64 <<< UInt64.ofNat shift = UInt64.ofNat ((x.toNat % 128) <<< shift) := by
  rw [← UInt64.toNat_inj, UInt64.toNat_shiftLeft, UInt8.toNat_toUInt64, toNat_and_low,
    UInt64.toNat_ofNat', UInt64.toNat_ofNat', Nat.mod_eq_of_lt (by omega : shift < 2 ^ 64),
    Nat.mod_eq_of_lt h]

theorem toNat_shifted {x shift : Nat} (h : shift < 64) :
    (UInt64.ofNat (x <<< shift)).toNat = 2 ^ shift * (x % 2 ^ (64 - shift)) := by
  have hpow : 2 ^ 64 = 2 ^ shift * 2 ^ (64 - shift) := by
    rw [← Nat.pow_add, Nat.add_sub_cancel' (Nat.le_of_lt h)]
  rw [UInt64.toNat_ofNat', Nat.shiftLeft_eq, Nat.mul_comm, hpow, Nat.mul_mod_mul_left]

/-- What has been read stays below the place where the next bits join it. -/
theorem shiftInFrom_eq {shift : Nat} {read : UInt64} (hread : read.toNat < 2 ^ shift) (taken : Nat)
    (b : Bytes) : shiftInFrom shift read taken b =
      (decodeFrom shift read b).map fun (n, rest) => (n, taken + b.length - rest.length) := by
  induction b generalizing shift read taken with
  | nil => rfl
  | cons x b ih =>
      rw [shiftInFrom, decodeFrom]
      by_cases hshift : 64 ≤ shift
      · rw [if_pos hshift, if_pos hshift]
        rfl
      have hroom := Nat.lt_of_not_le hshift
      have hpart := toNat_shifted (x := x.toNat % 128) hroom
      have hfew : x.toNat % 128 % 2 ^ (64 - shift) < 128 :=
        (Nat.mod_le _ _).trans_lt (Nat.mod_lt _ (by decide))
      have hnext := or_lt hread hpart hfew
      rw [or_eq_add hread hpart] at hnext
      rw [if_neg hshift, if_neg hshift, shifted_byte x hroom]
      simp only [and_high_eq_zero_iff, or_eq_add hread hpart]
      by_cases hlast : x.toNat < 128
      · rw [if_pos hlast, if_pos hlast]
        simp only [Except.map, List.length_cons]
        congr 2
        omega
      · rw [if_neg hlast, if_neg hlast, ih hnext]
        simp only [List.length_cons, Nat.add_assoc, Nat.add_comm 1]

theorem shiftIn_eq (b : Bytes) :
    shiftIn b = (decode b).map fun (n, rest) => (n, b.length - rest.length) := by
  have hread : (0 : UInt64).toNat < 2 ^ 0 := by decide
  have h := shiftInFrom_eq hread 0 b
  simp only [Nat.zero_add] at h
  exact h

theorem log2_div {n : Nat} (h : 128 ≤ n) : (n / 128).log2 + 7 = n.log2 := by
  have hne : n / 128 ≠ 0 := by omega
  have hlow := Nat.log2_self_le hne
  have hhigh := Nat.lt_log2_self (n := n / 128)
  refine ((Nat.log2_eq_iff (by omega)).mpr ⟨?_, ?_⟩).symm
  · rw [Nat.pow_add]
    omega
  · rw [show (n / 128).log2 + 7 + 1 = (n / 128).log2 + 1 + 7 by omega, Nat.pow_add]
    omega

theorem length_encodeNat (n : Nat) :
    (encodeNat n).length = (max 1 (if n = 0 then 0 else n.log2 + 1) + 6) / 7 := by
  fun_induction encodeNat n with
  | case1 n h =>
      by_cases hzero : n = 0
      · rw [if_pos hzero]
        rfl
      · have := (Nat.log2_lt hzero (k := 7)).mpr h
        rw [if_neg hzero, List.length_singleton]
        omega
  | case2 n h ih =>
      have hlog := log2_div (Nat.le_of_not_lt h)
      rw [List.length_cons, ih, if_neg (by omega), if_neg (by omega)]
      omega

theorem length_encode (n : UInt64) : (encode n).length = encodedLength n := by
  rw [encode, length_encodeNat, encodedLength]
  simp only [← UInt64.toNat_inj, UInt64.toNat_zero]

theorem digits_eq (n : UInt64) : 64 - leadingZeros n = if n = 0 then 0 else n.toNat.log2 + 1 := by
  by_cases hzero : n = 0
  · rw [if_pos hzero, hzero]
    rfl
  · have hbits : n.toBitVec ≠ 0#64 := fun h => hzero (UInt64.toBitVec_inj.mp h)
    have hfew : leadingZeros n < 64 := BitVec.clz_lt_iff_ne_zero.mpr hbits
    have hlow : 2 ^ (63 - leadingZeros n) ≤ n.toNat :=
      BitVec.two_pow_sub_clz_le_toNat_of_ne_zero (by decide) hbits
    have hhigh : n.toNat < 2 ^ (64 - leadingZeros n) := BitVec.toNat_lt_two_pow_sub_clz
    have hnat : n.toNat ≠ 0 := fun h => hzero (UInt64.toNat_inj.mp h)
    have hlog : n.toNat.log2 = 63 - leadingZeros n := by
      rw [Nat.log2_eq_iff hnat, show 63 - leadingZeros n + 1 = 64 - leadingZeros n by omega]
      exact ⟨hlow, hhigh⟩
    rw [if_neg hzero, hlog]
    omega

theorem encodedLength_eq (n : UInt64) :
    encodedLength n = (max 1 (64 - leadingZeros n) + 6) / 7 := by
  rw [encodedLength, digits_eq]

theorem encodedLength_le_ten (n : UInt64) : encodedLength n ≤ 10 := by
  rw [encodedLength_eq]
  omega

theorem shiftIn_encode (n : UInt64) (rest : Bytes) :
    shiftIn (encode n ++ rest) = .ok (n, encodedLength n) := by
  rw [shiftIn_eq, decode_encode, List.length_append, length_encode]
  simp only [Except.map, Nat.add_sub_cancel]

theorem decode_prefix (hp : p <+: encode n) (hne : p ≠ encode n) :
    decode p = .error .varintTruncated := by
  obtain ⟨more, last, hrun, hmore, -⟩ := isRun_encodeNat n.toNat
  have hlen := length_encode n
  have hten := encodedLength_le_ten n
  rw [encode, hrun] at hp hne hlen
  have hshort : p.length ≤ more.length := by
    have hle := hp.length_le
    have hnot : p.length ≠ (more ++ [last]).length := fun h => hne (hp.eq_of_length h)
    rw [List.length_append, List.length_singleton] at hle hnot
    omega
  have hpmore : p <+: more := List.prefix_of_prefix_length_le hp (List.prefix_append _ _) hshort
  rw [List.length_append, List.length_singleton] at hlen
  exact decode_unfinished (fun x hx => hmore x (hpmore.subset hx)) (by omega)

theorem encodedLength_le_of_run {run : Bytes} (h : IsRun run) (hlen : run.length ≤ 10)
    (hn : n = UInt64.ofNat (value run)) : encodedLength n ≤ run.length := by
  obtain ⟨more, last, hrun, -, -⟩ := h
  have hpos : run.length = more.length + 1 := by
    rw [hrun, List.length_append, List.length_singleton]
  by_cases hten : run.length = 10
  · rw [hten]
    exact encodedLength_le_ten n
  · have hlt := value_lt run
    have hpow : 128 ^ run.length ≤ 128 ^ 9 := Nat.pow_le_pow_right (by decide) (by omega)
    -- nine bytes have room for 63 bits, so that none is lost
    have hvalue : n.toNat = value run := by
      rw [hn, UInt64.toNat_ofNat_of_lt']
      exact hlt.trans_le (hpow.trans (by decide))
    rw [← length_encode, encode, hvalue, hpos]
    exact length_encodeNat_le more.length (hpos ▸ hlt)

theorem encodedLength_le_of_decode (h : decode b = .ok (n, rest)) :
    encodedLength n ≤ b.length := by
  obtain ⟨run, hrun, hlen, rfl, hn⟩ := decode_eq_ok_iff.mp h
  have := encodedLength_le_of_run hrun hlen hn
  rw [List.length_append]
  omega

end

/-- A number is put behind whatever bytes are there, in as many as its leading zeros tell. It is read
from these bytes, whatever follows them; a first part of them is refused for a fault of the format,
since it ends too early; and fewer bytes are not read as this number. Whether bits are joined or added
makes no difference to what is read of any bytes. -/
theorem encode_delimits (n : UInt64) (out rest : Bytes) :
    shiftOut out n = out ++ encode n ∧
      (shiftOut out n).length = out.length + encodedLength n ∧
      encodedLength n = (max 1 (64 - leadingZeros n) + 6) / 7 ∧
      decode (encode n ++ rest) = .ok (n, rest) ∧
      shiftIn (encode n ++ rest) = .ok (n, encodedLength n) ∧
      (∀ p, p <+: encode n → p ≠ encode n → decode p = .error .varintTruncated) ∧
      (∀ b, b.length < encodedLength n → ∀ left, decode b ≠ .ok (n, left)) ∧
      ∀ b, shiftIn b = (decode b).map fun (m, left) => (m, b.length - left.length) := by
  refine ⟨shiftOut_eq out n, ?_, encodedLength_eq n, decode_encode n rest, shiftIn_encode n rest,
    fun _ => decode_prefix, ?_, shiftIn_eq⟩
  · rw [shiftOut_eq, List.length_append, length_encode]
  · intro b hshort left hread
    have := encodedLength_le_of_decode hread
    omega

theorem encode_delimits_widest :
    encode 0x8000000000000000 = List.replicate 9 0x80 ++ [1] ∧
      decode (List.replicate 9 0x80) = .error .varintTruncated ∧
      (∀ left, decode (List.replicate 8 0xFF ++ [0x7F]) ≠ .ok (0x8000000000000000, left)) ∧
      shiftIn (List.replicate 9 0x80 ++ [1] ++ [5]) = .ok (0x8000000000000000, 10) := by
  have hbytes : encode 0x8000000000000000 = List.replicate 9 0x80 ++ [1] := by decide +kernel
  have hten : encodedLength 0x8000000000000000 = 10 := by decide +kernel
  obtain ⟨-, -, -, -, hread, hpart, hfewer, -⟩ := encode_delimits 0x8000000000000000 [] [5]
  rw [hbytes, hten] at hread
  rw [hbytes] at hpart
  rw [hten] at hfewer
  exact ⟨hbytes, hpart _ (List.prefix_append _ _) (by decide), hfewer _ (by decide), hread⟩

end Concordance.Proofs.Spellings
