import Concordance.BlockStore.Builder
import Concordance.BlockStore.View

namespace Concordance.BlockStore.Dump

def digits (n : Nat) : Bytes := (Nat.toDigits 10 n).map fun c => UInt8.ofNat c.toNat

def plus : UInt8 := 0x2B
def comma : UInt8 := 0x2C
def colon : UInt8 := 0x3A
def newline : UInt8 := 0x0A
def arrow : Bytes := [0x2D, 0x3E]

/-- A line `+3,5:key->value`. Keys and values stand as they are, so that any bytes can occur in
them. -/
def encodeRecord (r : Record) : Bytes :=
  [plus] ++ digits r.key.length ++ [comma] ++ digits r.value.length ++ [colon] ++
    r.key ++ arrow ++ r.value ++ [newline]

def encode (rs : List Record) : Bytes := rs.flatMap encodeRecord ++ [newline]

def isDigit (b : UInt8) : Bool := 0x30 ≤ b && b ≤ 0x39

/-- A decimal length up to the byte that ends it. At least one digit is due, and the number has to
fit in 64 bits. The count of the digits is signed, of 32 bits, and wraps around. -/
def readLength (stop : UInt8) (count : Int32) (value : Nat) :
    Bytes → Except DumpFault (Nat × Bytes)
  | [] => .error .lengthTruncated
  | b :: rest =>
      if b = stop ∧ 0 < count then .ok (value, rest)
      else if isDigit b then
        let value := value * 10 + (b.toNat - 0x30)
        if value < UInt64.size then readLength stop (count + 1) value rest
        else .error .lengthOverflow
      else .error (.lengthDigit b)

def readField (due : Nat) (b : Bytes) : Except DumpFault (Bytes × Bytes) :=
  let field := b.take due
  if field.length < due then .error (.fieldTruncated due b.length) else .ok (field, b.drop due)

def expect (token : Bytes) (b : Bytes) : Except DumpFault Bytes :=
  if b.take token.length = token then .ok (b.drop token.length)
  else .error (.missing (Utf8.lossy token))

def readRecord (b : Bytes) : Except DumpFault (Record × Bytes) := do
  let (keyLength, b) ← readLength comma 0 0 b
  let (valueLength, b) ← readLength colon 0 0 b
  let (key, b) ← readField keyLength b
  let b ← expect arrow b
  let (value, b) ← readField valueLength b
  let b ← expect [newline] b
  return (⟨key, value⟩, b)

theorem length_readLength {stop : UInt8} {b rest : Bytes} {count : Int32}
    {value n : Nat} (h : readLength stop count value b = .ok (n, rest)) : rest.length < b.length := by
  induction b generalizing count value with
  | nil => simp [readLength] at h
  | cons x b ih =>
    rw [readLength] at h
    split at h
    · simp_all
    · split at h
      · dsimp only at h
        split at h
        · have := ih h
          simp
          omega
        · simp at h
      · simp at h

theorem length_readField {due : Nat} {b field rest : Bytes}
    (h : readField due b = .ok (field, rest)) : rest.length ≤ b.length := by
  rw [readField] at h
  split at h
  · simp at h
  · simp only [Except.ok.injEq, Prod.mk.injEq] at h
    rw [← h.2, List.length_drop]
    omega

theorem length_expect {token b rest : Bytes} (h : expect token b = .ok rest) :
    rest.length ≤ b.length := by
  rw [expect] at h
  split at h
  · simp only [Except.ok.injEq] at h
    rw [← h, List.length_drop]
    omega
  · simp at h

theorem length_readRecord {b rest : Bytes} {r : Record} (h : readRecord b = .ok (r, rest)) :
    rest.length < b.length := by
  simp only [readRecord, bind, Except.bind, pure, Except.pure] at h
  split at h <;> try contradiction
  split at h <;> try contradiction
  split at h <;> try contradiction
  split at h <;> try contradiction
  split at h <;> try contradiction
  split at h <;> try contradiction
  rename_i h₁ _ _ h₂ _ _ h₃ _ _ h₄ _ _ h₅ _ _ h₆
  simp only [Except.ok.injEq, Prod.mk.injEq] at h
  have := length_readLength h₁
  have := length_readLength h₂
  have := length_readField h₃
  have := length_expect h₄
  have := length_readField h₅
  have := length_expect h₆
  obtain ⟨_, rfl⟩ := h
  omega

/-- The records of a dump, of which the first is numbered `number`. What stands behind the closing
line is not looked at. -/
def decodeFrom (number : Nat) (b : Bytes) : Except FormatFault (List Record) :=
  match b with
  | [] => .error .dumpUnclosed
  | x :: rest =>
      if x = newline then .ok []
      else if x = plus then
        match h : readRecord rest with
        | .error fault => .error (.dumpRecord number fault)
        | .ok (r, rest') => do
            let rs ← decodeFrom (number + 1) rest'
            return r :: rs
      else .error (.dumpRecord number (.opening x))
termination_by b.length
decreasing_by
  have := length_readRecord h
  simp
  omega

def decode (b : Bytes) : Except FormatFault (List Record) := decodeFrom 1 b

end Concordance.BlockStore.Dump

namespace Concordance.BlockStore

def ofDump (dump : Bytes) : Except FormatFault (Bytes × Summary) := do
  make (← Dump.decode dump)

/-- Write the dump of a store: what came out, and the number of records or why it stops there. -/
def View.dump (v : View) : Bytes × Except Error Nat × View :=
  let (found, v) := v.allRecords
  let out := found.flatMap fun
    | .ok r => Dump.encodeRecord r
    | .error _ => []
  match found.mapM id with
  | .ok rs => (out ++ [Dump.newline], .ok rs.length, v)
  | .error e => (out, .error e, v)

end Concordance.BlockStore
