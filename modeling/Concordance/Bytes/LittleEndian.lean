import Concordance.Bytes

namespace Concordance.LittleEndian

def encode : Nat → Nat → Bytes
  | 0, _ => []
  | w + 1, n => UInt8.ofNat n :: encode w (n / 256)

def decode : Bytes → Nat
  | [] => 0
  | b :: rest => b.toNat + 256 * decode rest

@[simp] theorem length_encode (w n : Nat) : (encode w n).length = w := by
  induction w generalizing n with
  | zero => rfl
  | succ w ih => simp [encode, ih]

def capacity : Nat → Nat
  | 0 => 1
  | w + 1 => 256 * capacity w

theorem decode_lt (b : Bytes) : decode b < capacity b.length := by
  induction b with
  | nil => simp [decode, capacity]
  | cons x b ih =>
    have := x.toNat_lt
    simp only [decode, List.length_cons, capacity]
    omega

theorem decode_encode (w n : Nat) : decode (encode w n) = n % capacity w := by
  induction w generalizing n with
  | zero => simp [encode, decode, capacity, Nat.mod_one]
  | succ w ih =>
    rw [encode, decode, ih, capacity, Nat.mod_mul]
    simp

theorem decode_encode_of_lt {w n : Nat} (h : n < capacity w) : decode (encode w n) = n := by
  rw [decode_encode, Nat.mod_eq_of_lt h]

theorem encode_decode (b : Bytes) : encode b.length (decode b) = b := by
  induction b with
  | nil => rfl
  | cons x b ih =>
    have hx := x.toNat_lt
    have hd : (x.toNat + 256 * decode b) / 256 = decode b := by omega
    have hm : UInt8.ofNat (x.toNat + 256 * decode b) = x := by
      apply UInt8.toNat_inj.1
      rw [UInt8.toNat_ofNat']
      omega
    simp only [decode, List.length_cons, encode, hd, hm, ih]

def u32 (n : UInt32) : Bytes := encode 4 n.toNat

def u64 (n : UInt64) : Bytes := encode 8 n.toNat

@[simp] theorem length_u32 (n : UInt32) : (u32 n).length = 4 := length_encode 4 _

@[simp] theorem length_u64 (n : UInt64) : (u64 n).length = 8 := length_encode 8 _

def toU32 (b : Bytes) : UInt32 := UInt32.ofNat (decode b)

def toU64 (b : Bytes) : UInt64 := UInt64.ofNat (decode b)

@[simp] theorem toU32_u32 (n : UInt32) : toU32 (u32 n) = n := by
  rw [toU32, u32, decode_encode_of_lt n.toNat_lt, UInt32.ofNat_toNat]

@[simp] theorem toU64_u64 (n : UInt64) : toU64 (u64 n) = n := by
  rw [toU64, u64, decode_encode_of_lt n.toNat_lt, UInt64.ofNat_toNat]

theorem u32_toU32 {b : Bytes} (h : b.length = 4) : u32 (toU32 b) = b := by
  have hlt := decode_lt b
  rw [h] at hlt
  rw [u32, toU32, UInt32.toNat_ofNat_of_lt' hlt, ← h, encode_decode]

theorem u64_toU64 {b : Bytes} (h : b.length = 8) : u64 (toU64 b) = b := by
  have hlt := decode_lt b
  rw [h] at hlt
  rw [u64, toU64, UInt64.toNat_ofNat_of_lt' hlt, ← h, encode_decode]

end Concordance.LittleEndian
