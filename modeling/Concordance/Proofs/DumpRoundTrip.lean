import Concordance.Proofs.DumpGrammar

namespace Concordance.Proofs.DumpRoundTrip

open BlockStore Dump Positioned Outcomes StoreImage StoreRoundTrip DumpGrammar

theorem isDigit_ofNat {c : Char} (h : c.isDigit = true) :
    isDigit (UInt8.ofNat c.toNat) = true ∧ (UInt8.ofNat c.toNat).toNat = c.toNat := by
  have hlow : 0x30 ≤ c.toNat := (Char.isDigit_iff_toNat.mp h).1
  have hhigh : c.toNat ≤ 0x39 := (Char.isDigit_iff_toNat.mp h).2
  have hnat : (UInt8.ofNat c.toNat).toNat = c.toNat := UInt8.toNat_ofNat_of_lt' (by
    have hsize : UInt8.size = 256 := rfl
    omega)
  refine ⟨?_, hnat⟩
  rw [isDigit, Bool.and_eq_true, decide_eq_true_iff, decide_eq_true_iff, UInt8.le_iff_toNat_le,
    UInt8.le_iff_toNat_le, hnat]
  exact ⟨hlow, hhigh⟩

theorem spelledFrom_map {cs : List Char} (h : ∀ c ∈ cs, c.isDigit = true) (n : Nat) :
    spelledFrom n (cs.map fun c => UInt8.ofNat c.toNat) = Nat.ofDigitChars 10 cs n := by
  induction cs generalizing n with
  | nil => rfl
  | cons c cs ih =>
      obtain ⟨hc, hcs⟩ := List.forall_mem_cons.mp h
      rw [Nat.ofDigitChars_cons, ← ih hcs, List.map_cons]
      change spelledFrom (n * 10 + ((UInt8.ofNat c.toNat).toNat - 0x30)) _ = _
      rw [(isDigit_ofNat hc).2, Nat.mul_comm]
      rfl

theorem spells_digits {n : Nat} (h : n < UInt64.size) : Spells (digits n) n := by
  have hdigits (c : Char) (hc : c ∈ Nat.toDigits 10 n) : c.isDigit = true :=
    Nat.isDigit_of_mem_toDigits (by decide) (by decide) hc
  refine ⟨?_, ?_, ?_, h⟩
  · rw [digits, ne_eq, List.map_eq_nil_iff]
    exact Nat.toDigits_ne_nil
  · intro d hd
    obtain ⟨c, hc, rfl⟩ := List.mem_map.mp hd
    exact (isDigit_ofNat (hdigits c hc)).1
  · rw [digits, spelledFrom_map hdigits, Nat.ofDigitChars_ten_toDigits]

def lineOf (r : Record) : Line := ⟨digits r.key.length, digits r.value.length, r⟩

structure Writable (r : Record) : Prop where
  key : r.key.length < UInt64.size
  value : r.value.length < UInt64.size

theorem parses_encode {rs : List Record} (h : ∀ r ∈ rs, Writable r) :
    Parses (encode rs) (rs.map lineOf) [] := by
  constructor
  · intro l hl
    obtain ⟨r, hr, rfl⟩ := List.mem_map.mp hl
    exact ⟨spells_digits (h r hr).key, spells_digits (h r hr).value⟩
  · rw [encode, List.flatMap_map]
    rfl

theorem length_digits_le {n : Nat} (h : n < UInt64.size) : (digits n).length ≤ 20 := by
  have hsize : UInt64.size < 10 ^ 20 := by decide
  rw [digits, List.length_map, Nat.length_toDigits_le_iff (by decide) (by decide)]
  omega

theorem lineOf_counted {r : Record} (h : Writable r) : (lineOf r).Counted := by
  have hkey : (lineOf r).keyDigits.length ≤ 20 := length_digits_le h.key
  have hvalue : (lineOf r).valueDigits.length ≤ 20 := length_digits_le h.value
  exact ⟨by omega, by omega⟩

theorem ofDump_encode {rs : List Record} (h : ∀ r ∈ rs, Writable r) :
    ofDump (encode rs) = make rs := by
  have hrecords : (rs.map lineOf).map Line.record = rs := by
    rw [List.map_map]
    exact List.map_id rs
  have hcount : ∀ l ∈ rs.map lineOf, l.Counted := by
    intro l hl
    obtain ⟨r, hr, rfl⟩ := List.mem_map.mp hl
    exact lineOf_counted (h r hr)
  rw [ofDump_of_parses (parses_encode h) hcount, hrecords]

theorem writable_of_size_lt {rs : List Record} (h : size rs < UInt32.size) {r : Record}
    (hr : r ∈ rs) : Writable r := by
  have hmax : UInt32.size < UInt64.size := by decide
  obtain ⟨before, behind, rfl⟩ := List.append_of_mem hr
  simp only [size, dataSize_append] at h
  simp only [dataSize, List.map_cons, List.sum_cons, recordSize] at h
  exact ⟨by omega, by omega⟩

theorem mapM_map_ok (rs : List Record) :
    (rs.map Except.ok : List (Except Error Record)).mapM id = .ok rs := by
  induction rs with
  | nil => rfl
  | cons r rs ih =>
      rw [List.map_cons, List.mapM_cons, ih]
      rfl

theorem eq_map_ok_of_mapM {found : List (Except Error Record)} {rs : List Record}
    (h : found.mapM id = .ok rs) : found = rs.map .ok := by
  induction found generalizing rs with
  | nil =>
      cases h
      rfl
  | cons x found ih =>
      rw [List.mapM_cons] at h
      obtain ⟨r, hx, h⟩ := bind_eq_ok h
      obtain ⟨rs', hrs, h⟩ := bind_eq_ok h
      cases h
      rw [ih hrs, List.map_cons]
      exact congrArg (· :: _) hx

theorem dump_of_allRecords {v : View} {rs : List Record} (h : v.allRecords.1 = rs.map .ok) :
    v.dump.1 = encode rs ∧ v.dump.2.1 = .ok rs.length := by
  rw [View.dump]
  generalize v.allRecords = p at h ⊢
  obtain ⟨found, w⟩ := p
  obtain rfl : found = rs.map .ok := h
  simp only [mapM_map_ok, and_true]
  rw [List.flatMap_map]
  rfl

theorem dump_of_unreadable {v : View} {e : Error} (h : v.allRecords.1.mapM id = .error e) :
    v.dump.2.1 = .error e := by
  rw [View.dump]
  generalize v.allRecords = p at h ⊢
  obtain ⟨found, w⟩ := p
  simp only [h]

def dumpOf (file : Bytes) : Except Error Bytes := do
  let v ← View.ofBytes file
  let _ ← v.dump.2.1
  return v.dump.1

def recordsOf (file : Bytes) : Except Error (List Record) := do
  let v ← View.ofBytes file
  v.allRecords.1.mapM id

theorem dumpOf_eq (file : Bytes) : dumpOf file = (recordsOf file).map encode := by
  rw [dumpOf, recordsOf]
  cases View.ofBytes file with
  | error e => rfl
  | ok v =>
      rw [ok_bind, ok_bind]
      cases hmap : v.allRecords.1.mapM id with
      | error e =>
          rw [dump_of_unreadable hmap]
          rfl
      | ok rs =>
          obtain ⟨htext, hcount⟩ := dump_of_allRecords (eq_map_ok_of_mapM hmap)
          rw [htext, hcount]
          rfl

theorem recordsOf_image {rs : List Record} (h : size rs < UInt32.size) :
    recordsOf (image rs) = .ok rs := by
  obtain ⟨v, hopen, hall⟩ := allRecords_make h
  rw [recordsOf, hopen, ok_bind, hall, mapM_map_ok]

theorem ofDump_encode_of_lt {rs : List Record} (h : size rs < UInt32.size) :
    ofDump (encode rs) = .ok (image rs, ⟨rs.length, size rs⟩) := by
  rw [ofDump_encode fun r hr => writable_of_size_lt h hr, make_of_lt h]

theorem dumpOf_image {rs : List Record} (h : size rs < UInt32.size) :
    dumpOf (image rs) = .ok (encode rs) := by
  rw [dumpOf_eq, recordsOf_image h]
  rfl

/-- The dump of a store that was made is made into the same file. The dump of any store is made into
one of the same records, of which the dump is the same, if that file is shorter than 4 GiB. -/
theorem dump_roundTrip :
    (∀ rs, size rs < UInt32.size → ∃ file summary text, make rs = .ok (file, summary) ∧
      dumpOf file = .ok text ∧ ofDump text = .ok (file, summary)) ∧
    ∀ s text, dumpOf s = .ok text → ∃ rs, recordsOf s = .ok rs ∧ (size rs < UInt32.size →
      ∃ file summary, ofDump text = .ok (file, summary) ∧ recordsOf file = .ok rs ∧
        dumpOf file = .ok text) := by
  constructor
  · intro rs hsmall
    exact ⟨_, _, _, make_of_lt hsmall, dumpOf_image hsmall, ofDump_encode_of_lt hsmall⟩
  · intro s text hdump
    rw [dumpOf_eq] at hdump
    cases hrecords : recordsOf s with
    | error e =>
        rw [hrecords] at hdump
        cases hdump
    | ok rs =>
        rw [hrecords] at hdump
        cases hdump
        refine ⟨rs, rfl, ?_⟩
        intro hsmall
        exact ⟨_, _, ofDump_encode_of_lt hsmall, recordsOf_image hsmall, dumpOf_image hsmall⟩

theorem dump_roundTrip_delimiters :
    ∃ file summary text rs, make [⟨[0x2D, 0x3E, 0x0A], [0x2B, 0x31, 0x2C]⟩, ⟨[], []⟩] =
        .ok (file, summary) ∧ dumpOf file = .ok text ∧ ofDump text = .ok (file, summary) ∧
      recordsOf file = .ok rs := by
  obtain ⟨file, summary, text, hmake, hdump, htaken⟩ :=
    dump_roundTrip.1 [⟨[0x2D, 0x3E, 0x0A], [0x2B, 0x31, 0x2C]⟩, ⟨[], []⟩] (by decide)
  obtain ⟨rs, hrecords, -⟩ := dump_roundTrip.2 file text hdump
  exact ⟨file, summary, text, rs, hmake, hdump, htaken, hrecords⟩

end Concordance.Proofs.DumpRoundTrip
