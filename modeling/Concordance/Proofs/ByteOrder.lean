import Concordance.Proofs.WordCounts

namespace Concordance.Proofs.ByteOrder

open WordCounts

def digitBytes (n : Nat) : Nat → Bytes
  | 0 => []
  | k + 1 => UInt8.ofNat (n / 64 ^ k % 64 + 128) :: digitBytes n k

def digitsBehind (n : Nat) : Nat :=
  if n ≤ 127 then 0 else if n ≤ 2047 then 1 else if n ≤ 65535 then 2 else 3

def leadOf (n : Nat) : Nat :=
  if n ≤ 127 then n else if n ≤ 2047 then n / 64 + 192
  else if n ≤ 65535 then n / 4096 + 224 else n / 262144 + 240

theorem cons_lt_cons {m n : Nat} {s t : Bytes} (hn : n < 256) (h : m < n ∨ m = n ∧ s < t) :
    UInt8.ofNat m :: s < UInt8.ofNat n :: t := by
  rw [List.cons_lt_cons_iff]
  obtain hlt | ⟨rfl, hs⟩ := h
  · left
    have hsize : UInt8.size = 256 := rfl
    rw [UInt8.lt_iff_toNat_lt, UInt8.toNat_ofNat_of_lt' (by omega),
      UInt8.toNat_ofNat_of_lt' (by omega)]
    exact hlt
  · exact .inr ⟨rfl, hs⟩

theorem digitBytes_lt {m n : Nat} (hlt : m < n) {k : Nat} (h : m / 64 ^ k = n / 64 ^ k)
    (s t : Bytes) : digitBytes m k ++ s < digitBytes n k ++ t := by
  induction k with
  | zero => omega
  | succ k ih =>
      have hm : m / 64 ^ (k + 1) = m / 64 ^ k / 64 := by rw [Nat.pow_succ, Nat.div_div_eq_div_mul]
      have hn : n / 64 ^ (k + 1) = n / 64 ^ k / 64 := by rw [Nat.pow_succ, Nat.div_div_eq_div_mul]
      have hle : m / 64 ^ k ≤ n / 64 ^ k := Nat.div_le_div_right (Nat.le_of_lt hlt)
      apply cons_lt_cons (by omega)
      rcases Nat.lt_or_eq_of_le hle with hdigit | hdigit
      · left
        omega
      · exact .inr ⟨by rw [hdigit], ih hdigit⟩

theorem code_lt (c : Char) : c.val.toNat < 1114112 := by
  have hvalid : c.val.toNat.isValidChar := c.valid
  obtain h | ⟨-, h⟩ := hvalid
  · omega
  · exact h

theorem encodeChar_eq (c : Char) : String.utf8EncodeChar c =
    UInt8.ofNat (leadOf c.val.toNat) :: digitBytes c.val.toNat (digitsBehind c.val.toNat) := by
  have hcode := code_lt c
  simp only [String.utf8EncodeChar]
  generalize c.val.toNat = n at hcode ⊢
  rw [leadOf, digitsBehind]
  by_cases h1 : n ≤ 127
  · simp only [if_pos h1, digitBytes]
  by_cases h2 : n ≤ 2047
  · have hmod : n / 64 % 32 = n / 64 := by omega
    simp [if_neg h1, if_pos h2, digitBytes, hmod]
  by_cases h3 : n ≤ 65535
  · have hmod : n / 4096 % 16 = n / 4096 := by omega
    simp [if_neg h1, if_neg h2, if_pos h3, digitBytes, hmod]
  · have hmod : n / 262144 % 8 = n / 262144 := by omega
    simp [if_neg h1, if_neg h2, if_neg h3, digitBytes, hmod]

theorem leadOf_lt {m n : Nat} (h : m < n) : leadOf m < leadOf n ∨ leadOf m = leadOf n ∧
    digitsBehind m = digitsBehind n ∧
    m / 64 ^ digitsBehind m = n / 64 ^ digitsBehind m := by
  simp only [leadOf, digitsBehind]
  grind

theorem encodeChar_lt {c d : Char} (h : c < d) (s t : Bytes) :
    String.utf8EncodeChar c ++ s < String.utf8EncodeChar d ++ t := by
  have hcode : c.val.toNat < d.val.toNat := h
  have hlead : leadOf d.val.toNat < 256 := by
    have hmax := code_lt d
    rw [leadOf]
    split_ifs <;> omega
  rw [encodeChar_eq, encodeChar_eq]
  apply cons_lt_cons hlead
  obtain hlt | ⟨heq, hcount, hdiv⟩ := leadOf_lt hcode
  · exact .inl hlt
  · exact .inr ⟨heq, hcount ▸ digitBytes_lt hcode hdiv s t⟩

theorem flatMap_encodeChar_lt {cs ds : List Char} (h : cs < ds) :
    cs.flatMap String.utf8EncodeChar < ds.flatMap String.utf8EncodeChar := by
  induction cs generalizing ds with
  | nil =>
      cases ds with
      | nil => exact absurd h (List.lt_irrefl [])
      | cons d ds =>
          rw [List.flatMap_cons, encodeChar_eq]
          exact List.nil_lt_cons _ _
  | cons c cs ih =>
      cases ds with
      | nil => exact absurd h (List.not_lt_nil _)
      | cons d ds =>
          rw [List.flatMap_cons, List.flatMap_cons]
          obtain hlt | ⟨rfl, hrest⟩ := List.cons_lt_cons_iff.mp h
          · exact encodeChar_lt hlt _ _
          · exact List.append_left_lt (ih hrest)

theorem ofString_lt {s t : String} (h : compare s t = .lt) :
    Bytes.ofString s < Bytes.ofString t := by
  have hlt : s < t := compareOfLessAndEq_eq_lt.mp h
  have hchars : s.toList < t.toList := hlt
  rw [ofString_eq_flatMap, ofString_eq_flatMap]
  exact flatMap_encodeChar_lt hchars

end Concordance.Proofs.ByteOrder
