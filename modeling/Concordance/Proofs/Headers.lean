import Concordance.Proofs.Checksums
import Concordance.Proofs.Codecs

namespace Concordance.Proofs.Headers

open Polynomial
open Index Outcomes Checksums
open Codecs (decode_header)
open LittleEndian (u32 u64 u32_toU32 u64_toU64)

section

variable {b c : Bytes} {h : Header}

theorem take_u32At (offset : Nat) (hb : offset + 4 ≤ b.length) :
    b.take (offset + 4) = b.take offset ++ u32 (Header.u32At b offset) := by
  rw [Header.u32At, u32_toU32 (by rw [Cursors.length_slice]; omega), Bytes.slice, List.take_add]

theorem take_u64At (offset : Nat) (hb : offset + 8 ≤ b.length) :
    b.take (offset + 8) = b.take offset ++ u64 (Header.u64At b offset) := by
  rw [Header.u64At, u64_toU64 (by rw [Cursors.length_slice]; omega), Bytes.slice, List.take_add]

theorem slice_take {offset n m : Nat} (hm : offset + n ≤ m) (b : Bytes) :
    Bytes.slice (b.take m) offset n = b.slice offset n := by
  rw [Bytes.slice, Bytes.slice, List.drop_take, List.take_take, Nat.min_eq_left (by omega)]

/-- What a block must be for a header to be read from it. -/
structure Accepted (b : Bytes) (h : Header) : Prop where
  length : Header.size ≤ b.length
  magic : b.take 8 = Header.magic
  version : Header.u32At b 8 = Header.version
  checksum : Header.u32At b 48 = Crc32.checksum (b.take 48)
  fields : h = ⟨Header.u32At b 12, Header.u64At b 16, Header.u64At b 24, Header.u64At b 32,
    Header.u64At b 40⟩

/-- What is wrong with a block that is refused. -/
def Refused (b : Bytes) (fault : FormatFault) : Prop :=
  fault = .headerTruncated b.length ∨ fault = .headerMagic ∨
    fault = .headerVersion (Header.u32At b 8) ∨ fault = .headerChecksum

theorem decode_cases (b : Bytes) : (∃ h, Header.decode b = .ok h ∧ Accepted b h) ∨
    ∃ fault, Header.decode b = .error fault ∧ Refused b fault := by
  rw [Header.decode]
  split
  · exact .inr ⟨_, rfl, .inl rfl⟩
  rename_i hlength
  dsimp only
  split
  · exact .inr ⟨_, rfl, .inr (.inl rfl)⟩
  rename_i hmagic
  split
  · exact .inr ⟨_, rfl, .inr (.inr (.inl rfl))⟩
  rename_i hversion
  split
  · exact .inr ⟨_, rfl, .inr (.inr (.inr rfl))⟩
  rename_i hchecksum
  exact .inl ⟨_, rfl, Nat.le_of_not_lt hlength, Decidable.not_not.mp hmagic,
    Decidable.not_not.mp hversion, Decidable.not_not.mp hchecksum, rfl⟩

theorem accepted_of_decode (hread : Header.decode b = .ok h) : Accepted b h := by
  rcases decode_cases b with ⟨h', hread', haccepted⟩ | ⟨fault, hread', -⟩
  · rw [hread] at hread'
    cases hread'
    exact haccepted
  · rw [hread] at hread'
    cases hread'

theorem Accepted.take_eq {header : Header} (h : Accepted b header) :
    b.take 52 = header.sealed := by
  have hlength : 4096 ≤ b.length := h.length
  have hpayload : b.take 48 = header.payload := by
    rw [take_u64At 40 (by omega), take_u64At 32 (by omega),
      take_u64At 24 (by omega), take_u64At 16 (by omega),
      take_u32At 12 (by omega), take_u32At 8 (by omega), h.magic,
      h.version, h.fields]
    rfl
  rw [take_u32At 48 (by omega), h.checksum, hpayload, Header.sealed]

theorem take_encode (h : Header) : h.encode.take 52 = h.sealed := by
  have hlen := h.length_sealed
  rw [Header.encode, List.take_append_of_le_length (Nat.le_of_eq hlen.symm),
    List.take_of_length_le (Nat.le_of_eq hlen)]

theorem decode_congr (hb : Header.size ≤ b.length) (hc : Header.size ≤ c.length)
    (htake : b.take 52 = c.take 52) : Header.decode b = Header.decode c := by
  have hbytes : ∀ n ≤ 52, b.take n = c.take n := by
    intro n hn
    rw [← Nat.min_eq_left hn, ← List.take_take, htake, List.take_take]
  have hu32 : ∀ offset ≤ 48, Header.u32At b offset = Header.u32At c offset := by
    intro offset hoffset
    rw [Header.u32At, Header.u32At, ← slice_take (m := 52) (by omega) b, htake,
      slice_take (by omega)]
  have hu64 : ∀ offset ≤ 44, Header.u64At b offset = Header.u64At c offset := by
    intro offset hoffset
    rw [Header.u64At, Header.u64At, ← slice_take (m := 52) (by omega) b, htake,
      slice_take (by omega)]
  rw [Header.decode, Header.decode, if_neg (Nat.not_lt.mpr hb), if_neg (Nat.not_lt.mpr hc),
    hbytes 8 (by omega), hbytes 48 (by omega), hu32 8 (by omega), hu32 12 (by omega),
    hu32 48 (by omega), hu64 16 (by omega), hu64 24 (by omega), hu64 32 (by omega),
    hu64 40 (by omega)]

theorem decode_eq_ok_iff :
    Header.decode b = .ok h ↔ Header.size ≤ b.length ∧ b.take 52 = h.encode.take 52 := by
  constructor
  · intro hread
    have haccepted := accepted_of_decode hread
    exact ⟨haccepted.length, by rw [haccepted.take_eq, take_encode]⟩
  · rintro ⟨hlength, htake⟩
    rw [decode_congr hlength (Nat.le_of_eq h.length_encode.symm) htake, decode_header]

end

/-- A header is read from a block that is long enough and begins with the 52 bytes with which the
header is written, and from no other. So headers differ within these bytes, what is behind them does
not matter, and a block that begins with none of them is refused for its length, its magic, its
version or its checksum. The checksum is the remainder of a division by the generator polynomial. -/
theorem decode_exactly :
    (∀ (b : Bytes) (h : Header),
      Header.decode b = .ok h ↔ Header.size ≤ b.length ∧ b.take 52 = h.encode.take 52) ∧
    (∀ h : Header, Header.decode h.encode = .ok h) ∧
    (Function.Injective fun h : Header => h.encode.take 52) ∧
    (∀ b c : Bytes, Header.size ≤ b.length → Header.size ≤ c.length → b.take 52 = c.take 52 →
      Header.decode b = Header.decode c) ∧
    (∀ b : Bytes, (∀ h : Header, Header.size ≤ b.length → b.take 52 ≠ h.encode.take 52) →
      ∃ fault, Header.decode b = .error fault ∧ Refused b fault) ∧
    ∀ (m : Bytes) (c : UInt32), Crc32.checksum m = c ↔ digits 32 (c ^^^ 0xFFFFFFFF).toNat =
      (message m * X ^ 32 + digits 32 0xFFFFFFFF * X ^ (8 * m.length)) %ₘ generator := by
  refine ⟨fun b h => decode_eq_ok_iff, decode_header, fun h h' htake => ?_,
    fun b c => decode_congr, fun b hother => ?_, fun m c => checksum_eq_iff⟩
  · have hread : Header.decode h.encode = .ok h' :=
      decode_eq_ok_iff.mpr ⟨Nat.le_of_eq h.length_encode.symm, htake⟩
    rw [decode_header] at hread
    exact Except.ok.inj hread
  · rcases decode_cases b with ⟨h, hread, -⟩ | hrefused
    · obtain ⟨hlength, htake⟩ := decode_eq_ok_iff.mp hread
      exact absurd htake (hother h hlength)
    · exact hrefused

def sample : Header := ⟨0xDEADBEEF, 2100, 4200, 3, 17⟩

def trailing : Bytes := sample.sealed ++ List.replicate (Header.size - 52) 0xFF

theorem length_trailing : trailing.length = Header.size := by
  rw [trailing, List.length_append, sample.length_sealed, List.length_replicate]
  rfl

theorem decode_exactly_trailing :
    Header.decode trailing = .ok sample ∧ Header.decode trailing = Header.decode sample.encode ∧
      ∃ fault, Header.decode trailing.tail = .error fault ∧ Refused trailing.tail fault := by
  obtain ⟨hread, -, -, hbehind, hother, -⟩ := decode_exactly
  have hlength : Header.size ≤ trailing.length := Nat.le_of_eq length_trailing.symm
  have htake : trailing.take 52 = sample.encode.take 52 := by
    rw [take_encode, trailing,
      List.take_append_of_le_length (Nat.le_of_eq sample.length_sealed.symm),
      List.take_of_length_le (Nat.le_of_eq sample.length_sealed)]
  have hshort : ¬ Header.size ≤ trailing.tail.length := by
    rw [List.length_tail, length_trailing]
    decide
  exact ⟨(hread _ _).mpr ⟨hlength, htake⟩,
    hbehind _ _ hlength (Nat.le_of_eq sample.length_encode.symm) htake,
    hother _ fun _ hlong => absurd hlong hshort⟩

end Concordance.Proofs.Headers
