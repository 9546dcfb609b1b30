import Concordance.Error

namespace Concordance.Varint

/-- Seven bits a byte, low bits first, and the high bit on every byte but the last. -/
def encodeNat (n : Nat) : Bytes :=
  if h : n < 128 then [UInt8.ofNat n] else UInt8.ofNat (n % 128 + 128) :: encodeNat (n / 128)
termination_by n

def encode (n : UInt64) : Bytes := encodeNat n.toNat

def encodedLength (n : UInt64) : Nat :=
  (max 1 (if n = 0 then 0 else n.toNat.log2 + 1) + 6) / 7

def value : Bytes → Nat
  | [] => 0
  | b :: rest => b.toNat % 128 + 128 * value rest

/-- The rest of a number, of which `shift` bits have been read. Bits past the 64th are lost, and no
byte may begin behind them. -/
def decodeFrom (shift : Nat) (read : UInt64) : Bytes → Except FormatFault (UInt64 × Bytes)
  | [] => .error .varintTruncated
  | b :: rest =>
      if 64 ≤ shift then .error .varintOverflow
      else
        let read := read + UInt64.ofNat ((b.toNat % 128) <<< shift)
        if b.toNat < 128 then .ok (read, rest) else decodeFrom (shift + 7) read rest

def decode (b : Bytes) : Except FormatFault (UInt64 × Bytes) := decodeFrom 0 0 b

end Concordance.Varint
