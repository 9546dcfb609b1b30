import Concordance.BlockStore.Dump
import Concordance.Proofs.StoreRoundTrip

namespace Concordance.Proofs.DumpGrammar

open BlockStore Dump Outcomes StoreImage StoreRoundTrip

def spelledFrom (n : Nat) (ds : Bytes) : Nat := ds.foldl (fun n d => n * 10 + (d.toNat - 0x30)) n

/-- The digits of a length of 64 bits. Zeros may lead. -/
structure Spells (ds : Bytes) (n : Nat) : Prop where
  nonempty : ds ≠ []
  digits : ∀ d ∈ ds, isDigit d = true
  value : spelledFrom 0 ds = n
  fits : n < UInt64.size

/-- A line of a dump, of which the lengths may be written in several ways. -/
structure Line where
  keyDigits : Bytes
  valueDigits : Bytes
  record : Record

def Line.text (l : Line) : Bytes :=
  [plus] ++ l.keyDigits ++ [comma] ++ l.valueDigits ++ [colon] ++ l.record.key ++ arrow ++
    l.record.value ++ [newline]

structure Line.Valid (l : Line) : Prop where
  key : Spells l.keyDigits l.record.key.length
  value : Spells l.valueDigits l.record.value.length

/-- The bytes begin with the lines and an empty line, and the rest follows. -/
structure Parses (b : Bytes) (lines : List Line) (rest : Bytes) : Prop where
  valid : ∀ l ∈ lines, l.Valid
  text : b = lines.flatMap Line.text ++ newline :: rest

/-- Behind these bytes of a dump a length is due. -/
inductive LengthDue : Bytes → Prop
  | key {lines : List Line} (hlines : ∀ l ∈ lines, l.Valid) :
      LengthDue (lines.flatMap Line.text ++ [plus])
  | value {lines : List Line} {ds : Bytes} {n : Nat} (hlines : ∀ l ∈ lines, l.Valid)
      (hds : Spells ds n) : LengthDue (lines.flatMap Line.text ++ (plus :: ds ++ [comma]))

/-- No length has so many digits that 31 bits could not count them. -/
def FewDigits (b : Bytes) : Prop :=
  ∀ front ds rest, LengthDue front → (∀ d ∈ ds, isDigit d = true) → b = front ++ (ds ++ rest) →
    ds.length < 2 ^ 31

structure Line.Counted (l : Line) : Prop where
  key : l.keyDigits.length < 2 ^ 31
  value : l.valueDigits.length < 2 ^ 31

theorem le_spelledFrom (n : Nat) (ds : Bytes) : n ≤ spelledFrom n ds := by
  induction ds generalizing n with
  | nil => exact Nat.le_refl n
  | cons d ds ih => exact Nat.le_trans (by omega) (ih (n * 10 + (d.toNat - 0x30)))

theorem readLength_digits {stop : UInt8} (hstop : isDigit stop = false) {ds : Bytes}
    (hds : ∀ d ∈ ds, isDigit d = true) {count : Int32} {n : Nat}
    (hfits : spelledFrom n ds < UInt64.size) (rest : Bytes) :
    readLength stop count n (ds ++ rest) =
      readLength stop (count + Int32.ofNat ds.length) (spelledFrom n ds) rest := by
  induction ds generalizing count n with
  | nil =>
      rw [List.nil_append, List.length_nil, show Int32.ofNat 0 = 0 from rfl, Int32.add_zero]
      rfl
  | cons d ds ih =>
      obtain ⟨hd, hds⟩ := List.forall_mem_cons.mp hds
      have hother : ¬ (d = stop ∧ 0 < count) := by
        rintro ⟨rfl, -⟩
        rw [hd] at hstop
        cases hstop
      have hnext : n * 10 + (d.toNat - 0x30) < UInt64.size :=
        Nat.lt_of_le_of_lt (le_spelledFrom _ ds) hfits
      rw [List.cons_append, readLength, if_neg hother, if_pos hd]
      dsimp only
      rw [if_pos hnext, ih hds hfits, List.length_cons, Nat.add_comm ds.length, Int32.ofNat_add,
        Int32.add_assoc]
      rfl

theorem ofNat_pos {n : Nat} (hpos : 0 < n) (h : n < 2 ^ 31) : 0 < Int32.ofNat n := by
  rw [Int32.lt_iff_toInt_lt, Int32.toInt_ofNat_of_lt h, Int32.toInt_zero]
  omega

theorem readLength_sound {stop : UInt8} {count : Int32} {n m : Nat} {b rest : Bytes}
    (hn : n < UInt64.size) (h : readLength stop count n b = .ok (m, rest)) :
    ∃ ds, b = ds ++ stop :: rest ∧ (∀ d ∈ ds, isDigit d = true) ∧ (0 < count ∨ ds ≠ []) ∧
      spelledFrom n ds = m ∧ m < UInt64.size := by
  induction b generalizing count n with
  | nil => cases h
  | cons x b ih =>
      rw [readLength] at h
      by_cases hend : x = stop ∧ 0 < count
      · rw [if_pos hend] at h
        cases h
        exact ⟨[], by rw [hend.1, List.nil_append], by simp, .inl hend.2, rfl, hn⟩
      rw [if_neg hend] at h
      by_cases hx : isDigit x = true
      · rw [if_pos hx] at h
        dsimp only at h
        by_cases hnext : n * 10 + (x.toNat - 0x30) < UInt64.size
        · rw [if_pos hnext] at h
          obtain ⟨ds, rfl, hds, -, hvalue, hfits⟩ := ih hnext h
          exact ⟨x :: ds, rfl, List.forall_mem_cons.mpr ⟨hx, hds⟩, .inr (List.cons_ne_nil _ _),
            hvalue, hfits⟩
        · rw [if_neg hnext] at h
          cases h
      · rw [if_neg hx] at h
        cases h

theorem readLength_of_spells {stop : UInt8} (hstop : isDigit stop = false) {ds : Bytes} {n : Nat}
    (h : Spells ds n) (hcount : ds.length < 2 ^ 31) (rest : Bytes) :
    readLength stop 0 0 (ds ++ stop :: rest) = .ok (n, rest) := by
  have hfits : spelledFrom 0 ds < UInt64.size := by
    rw [h.value]
    exact h.fits
  have hseen := ofNat_pos (List.length_pos_iff.mpr h.nonempty) hcount
  rw [readLength_digits hstop h.digits hfits, Int32.zero_add, readLength, if_pos ⟨rfl, hseen⟩,
    h.value]

theorem spells_of_readLength {stop : UInt8} {n : Nat} {b rest : Bytes}
    (h : readLength stop 0 0 b = .ok (n, rest)) :
    ∃ ds, b = ds ++ stop :: rest ∧ Spells ds n := by
  obtain ⟨ds, rfl, hds, hne, hvalue, hfits⟩ := readLength_sound (by decide) h
  exact ⟨ds, rfl, hne.resolve_left (by decide), hds, hvalue, hfits⟩

theorem readField_eq_ok_iff {due : Nat} {b field rest : Bytes} :
    readField due b = .ok (field, rest) ↔ b = field ++ rest ∧ field.length = due := by
  rw [readField]
  constructor
  · intro h
    by_cases hshort : (b.take due).length < due
    · rw [if_pos hshort] at h
      cases h
    · rw [if_neg hshort] at h
      cases h
      have hle := List.length_take_le due b
      exact ⟨(List.take_append_drop due b).symm, by omega⟩
  · rintro ⟨rfl, rfl⟩
    rw [List.take_left, List.drop_left, if_neg (Nat.lt_irrefl _)]

theorem expect_eq_ok_iff {token b rest : Bytes} :
    expect token b = .ok rest ↔ b = token ++ rest := by
  rw [expect]
  constructor
  · intro h
    by_cases htoken : b.take token.length = token
    · rw [if_pos htoken] at h
      cases h
      nth_rewrite 1 [← htoken]
      exact (List.take_append_drop _ b).symm
    · rw [if_neg htoken] at h
      cases h
  · rintro rfl
    rw [List.take_left, List.drop_left, if_pos rfl]

theorem text_append (l : Line) (rest : Bytes) : l.text ++ rest =
    plus :: (l.keyDigits ++ comma :: (l.valueDigits ++ colon :: (l.record.key ++
      (arrow ++ (l.record.value ++ ([newline] ++ rest)))))) := by
  simp [Line.text]

theorem readRecord_of_valid {l : Line} (h : l.Valid) (hcount : l.Counted) {b rest : Bytes}
    (hb : l.text ++ rest = plus :: b) : readRecord b = .ok (l.record, rest) := by
  rw [text_append] at hb
  cases hb
  rw [readRecord, readLength_of_spells (by decide) h.key hcount.key, ok_bind]
  dsimp only
  rw [readLength_of_spells (by decide) h.value hcount.value, ok_bind]
  dsimp only
  rw [readField_eq_ok_iff.mpr ⟨rfl, rfl⟩, ok_bind]
  dsimp only
  rw [expect_eq_ok_iff.mpr rfl, ok_bind, readField_eq_ok_iff.mpr ⟨rfl, rfl⟩, ok_bind]
  dsimp only
  rw [expect_eq_ok_iff.mpr rfl, ok_bind]
  rfl

theorem valid_of_readRecord {b rest : Bytes} {r : Record} (h : readRecord b = .ok (r, rest)) :
    ∃ l : Line, l.Valid ∧ l.record = r ∧ plus :: b = l.text ++ rest := by
  rw [readRecord] at h
  obtain ⟨⟨keyLength, b₁⟩, h₁, h⟩ := bind_eq_ok h
  obtain ⟨⟨valueLength, b₂⟩, h₂, h⟩ := bind_eq_ok h
  obtain ⟨⟨key, b₃⟩, h₃, h⟩ := bind_eq_ok h
  obtain ⟨b₄, h₄, h⟩ := bind_eq_ok h
  obtain ⟨⟨value, b₅⟩, h₅, h⟩ := bind_eq_ok h
  obtain ⟨b₆, h₆, h⟩ := bind_eq_ok h
  cases h
  obtain ⟨keyDigits, rfl, hkey⟩ := spells_of_readLength h₁
  obtain ⟨valueDigits, rfl, hvalue⟩ := spells_of_readLength h₂
  obtain ⟨rfl, rfl⟩ := readField_eq_ok_iff.mp h₃
  obtain rfl := expect_eq_ok_iff.mp h₄
  obtain ⟨rfl, rfl⟩ := readField_eq_ok_iff.mp h₅
  obtain rfl := expect_eq_ok_iff.mp h₆
  refine ⟨⟨keyDigits, valueDigits, ⟨key, value⟩⟩, ⟨hkey, hvalue⟩, rfl, ?_⟩
  rw [text_append]

theorem decodeFrom_plus (number : Nat) (b : Bytes) :
    decodeFrom number (plus :: b) = match readRecord b with
      | .error fault => .error (.dumpRecord number fault)
      | .ok (r, rest) => do
          let rs ← decodeFrom (number + 1) rest
          return r :: rs := by
  rw [decodeFrom, if_neg (by decide), if_pos rfl]
  split
  · rename_i fault hread
    rw [hread]
  · rename_i r rest hread
    rw [hread]

theorem decodeFrom_of_parses {b rest : Bytes} {lines : List Line} (h : Parses b lines rest)
    (hcount : ∀ l ∈ lines, l.Counted) (number : Nat) :
    decodeFrom number b = .ok (lines.map Line.record) := by
  obtain ⟨hvalid, rfl⟩ := h
  induction lines generalizing number with
  | nil => rw [List.flatMap_nil, List.nil_append, decodeFrom, if_pos rfl]; rfl
  | cons l lines ih =>
      obtain ⟨hl, hlines⟩ := List.forall_mem_cons.mp hvalid
      obtain ⟨hcounted, hcounts⟩ := List.forall_mem_cons.mp hcount
      obtain ⟨b, hb⟩ : ∃ b, l.text ++ (lines.flatMap Line.text ++ newline :: rest) = plus :: b :=
        ⟨_, text_append _ _⟩
      rw [List.flatMap_cons, List.append_assoc, hb, decodeFrom_plus, readRecord_of_valid hl hcounted hb]
      dsimp only
      rw [ih hcounts (number + 1) hlines]
      rfl

theorem parses_of_decodeFrom {number : Nat} {b : Bytes} {rs : List Record}
    (h : decodeFrom number b = .ok rs) :
    ∃ lines rest, Parses b lines rest ∧ lines.map Line.record = rs := by
  induction hn : b.length using Nat.strongRecOn generalizing number b rs with
  | _ n ih =>
      cases b with
      | nil =>
          rw [decodeFrom] at h
          cases h
      | cons x b =>
          by_cases hnewline : x = newline
          · rw [decodeFrom, if_pos hnewline] at h
            cases h
            exact ⟨[], b, ⟨by simp, by rw [hnewline]; rfl⟩, rfl⟩
          · by_cases hplus : x = plus
            · subst hplus
              rw [decodeFrom_plus] at h
              cases hread : readRecord b with
              | error fault =>
                  rw [hread] at h
                  cases h
              | ok p =>
                  obtain ⟨r, rest⟩ := p
                  rw [hread] at h
                  obtain ⟨rs', hrs, h⟩ := bind_eq_ok h
                  cases h
                  obtain ⟨l, hl, rfl, htext⟩ := valid_of_readRecord hread
                  have hless := length_readRecord hread
                  obtain ⟨lines, left, ⟨hlines, rfl⟩, rfl⟩ := ih rest.length
                    (by simp only [List.length_cons] at hn; omega) hrs rfl
                  refine ⟨l :: lines, left, ⟨List.forall_mem_cons.mpr ⟨hl, hlines⟩, ?_⟩, rfl⟩
                  rw [htext, List.flatMap_cons, List.append_assoc]
            · rw [decodeFrom, if_neg hnewline, if_neg hplus] at h
              cases h

theorem takeWhile_digits {stop : UInt8} (hstop : isDigit stop = false) {ds : Bytes}
    (hds : ∀ d ∈ ds, isDigit d = true) (x : Bytes) :
    (ds ++ stop :: x).takeWhile isDigit = ds := by
  rw [List.takeWhile_append_of_pos hds,
    List.takeWhile_cons_of_neg (by rw [hstop]; exact Bool.false_ne_true), List.append_nil]

theorem spells_unique {stop : UInt8} (hstop : isDigit stop = false) {ds ds' x x' : Bytes}
    {n n' : Nat} (h : Spells ds n) (h' : Spells ds' n') (heq : ds ++ stop :: x = ds' ++ stop :: x') :
    ds = ds' ∧ n = n' ∧ x = x' := by
  have hdigits : ds = ds' := by
    rw [← takeWhile_digits hstop h.digits x, heq, takeWhile_digits hstop h'.digits]
  subst hdigits
  exact ⟨rfl, h.value.symm.trans h'.value, (List.cons.inj (List.append_cancel_left heq)).2⟩

theorem line_unique {l l' : Line} (h : l.Valid) (h' : l'.Valid) {x x' : Bytes}
    (heq : l.text ++ x = l'.text ++ x') : l = l' ∧ x = x' := by
  obtain ⟨kd, vd, ⟨key, value⟩⟩ := l
  obtain ⟨kd', vd', ⟨key', value'⟩⟩ := l'
  rw [text_append, text_append] at heq
  obtain ⟨rfl, hkey, hbehind⟩ := spells_unique (by decide) h.key h'.key (List.cons.inj heq).2
  obtain ⟨rfl, hvalue, hfields⟩ := spells_unique (by decide) h.value h'.value hbehind
  obtain ⟨rfl, hpair⟩ := List.append_inj hfields hkey
  obtain ⟨rfl, hend⟩ := List.append_inj (List.append_cancel_left hpair) hvalue
  exact ⟨rfl, List.append_cancel_left hend⟩

theorem parses_unique {b rest rest' : Bytes} {lines lines' : List Line} (h : Parses b lines rest)
    (h' : Parses b lines' rest') : lines = lines' ∧ rest = rest' := by
  obtain ⟨hvalid, rfl⟩ := h
  obtain ⟨hvalid', heq⟩ := h'
  induction lines generalizing lines' with
  | nil =>
      cases lines' with
      | nil =>
          cases heq
          exact ⟨rfl, rfl⟩
      | cons l' lines' =>
          rw [List.flatMap_cons, List.append_assoc, text_append] at heq
          cases heq
  | cons l lines ih =>
      obtain ⟨hl, hlines⟩ := List.forall_mem_cons.mp hvalid
      rw [List.flatMap_cons, List.append_assoc] at heq
      cases lines' with
      | nil =>
          rw [text_append] at heq
          cases heq
      | cons l' lines' =>
          obtain ⟨hl', hlines'⟩ := List.forall_mem_cons.mp hvalid'
          rw [List.flatMap_cons, List.append_assoc] at heq
          obtain ⟨rfl, hlater⟩ := line_unique hl hl' heq
          obtain ⟨rfl, rfl⟩ := ih hlines hlines' hlater
          exact ⟨rfl, rfl⟩

theorem counted_of_fewDigits {b rest : Bytes} {lines : List Line} (h : Parses b lines rest)
    (hb : FewDigits b) : ∀ l ∈ lines, l.Counted := by
  intro l hl
  obtain ⟨before, behind, rfl⟩ := List.append_of_mem hl
  obtain ⟨hvalid, rfl⟩ := h
  have hbefore : ∀ l' ∈ before, l'.Valid := fun l' hl' => hvalid l' (List.mem_append_left _ hl')
  have hself := hvalid l hl
  constructor
  · apply hb _ _ _ (.key hbefore) hself.key.digits
    rw [List.flatMap_append, List.flatMap_cons, List.append_assoc, List.append_assoc, text_append,
      List.append_assoc]
    rfl
  · apply hb _ _ _ (.value hbefore hself.key) hself.value.digits
    rw [List.flatMap_append, List.flatMap_cons, List.append_assoc, List.append_assoc, text_append]
    simp only [List.append_assoc, List.cons_append, List.nil_append]
    rfl

theorem ofDump_of_parses {b rest : Bytes} {lines : List Line} (h : Parses b lines rest)
    (hcount : ∀ l ∈ lines, l.Counted) : ofDump b = make (lines.map Line.record) := by
  rw [ofDump, decode, decodeFrom_of_parses h hcount, ok_bind]

theorem ofDump_of_not_parses {b : Bytes} (h : ¬ ∃ lines rest, Parses b lines rest) :
    ∃ fault, ofDump b = .error fault := by
  rw [ofDump, decode]
  cases hdecode : decodeFrom 1 b with
  | ok rs =>
      obtain ⟨lines, rest, hparses, -⟩ := parses_of_decodeFrom hdecode
      exact absurd ⟨lines, rest, hparses⟩ h
  | error fault => exact ⟨fault, rfl⟩

/-- If the store of the records would be shorter than 4 GiB, and no length has 2^31 digits, a dump is
taken if and only if it parses, in one way only, and the store holds the records of its lines. No
part of a store comes of any other bytes but a fault of the format. -/
theorem ofDump_grammar (b : Bytes) (hcount : FewDigits b)
    (hsmall : ∀ lines rest, Parses b lines rest → size (lines.map Line.record) < UInt32.size) :
    ((∃ file summary, ofDump b = .ok (file, summary)) ↔ ∃ lines rest, Parses b lines rest) ∧
      (∀ lines rest, Parses b lines rest →
        (∀ lines' rest', Parses b lines' rest' → lines' = lines ∧ rest' = rest) ∧
          ∃ file summary v, ofDump b = .ok (file, summary) ∧ summary.records = lines.length ∧
            make (lines.map Line.record) = .ok (file, summary) ∧ View.ofBytes file = .ok v ∧
            v.allRecords.1 = lines.map fun l => .ok l.record) ∧
      ((¬ ∃ lines rest, Parses b lines rest) → ∃ fault, ofDump b = .error fault) := by
  have hmake {lines : List Line} {rest : Bytes} (h : Parses b lines rest) :
      ofDump b = .ok (image (lines.map Line.record),
        ⟨(lines.map Line.record).length, size (lines.map Line.record)⟩) := by
    rw [ofDump_of_parses h (counted_of_fewDigits h hcount), make_of_lt (hsmall lines rest h)]
  refine ⟨⟨?_, ?_⟩, ?_, ofDump_of_not_parses⟩
  · rintro ⟨file, summary, htaken⟩
    by_contra hout
    obtain ⟨fault, hfault⟩ := ofDump_of_not_parses hout
    rw [hfault] at htaken
    cases htaken
  · rintro ⟨lines, rest, h⟩
    exact ⟨_, _, hmake h⟩
  · intro lines rest h
    obtain ⟨v, hopen, hall⟩ := allRecords_make (hsmall lines rest h)
    refine ⟨fun lines' rest' h' => parses_unique h' h, _, _, v, hmake h, List.length_map _,
      make_of_lt (hsmall lines rest h), hopen, ?_⟩
    rw [hall, List.map_map]
    rfl

theorem fewDigits_of_length {b : Bytes} (h : b.length < 2 ^ 31) : FewDigits b := by
  rintro front ds rest - - rfl
  rw [List.length_append, List.length_append] at h
  omega

theorem ofDump_grammar_delimiters :
    ∃ file summary v, ofDump [0x2B, 0x33, 0x2C, 0x30, 0x31, 0x3A, 0x2D, 0x3E, 0x0A, 0x2D, 0x3E, 0x2B,
        0x0A, 0x0A, 0x21] = .ok (file, summary) ∧ summary.records = 1 ∧
      View.ofBytes file = .ok v ∧ v.allRecords.1 = [.ok ⟨[0x2D, 0x3E, 0x0A], [0x2B]⟩] := by
  have hparses : Parses [0x2B, 0x33, 0x2C, 0x30, 0x31, 0x3A, 0x2D, 0x3E, 0x0A, 0x2D, 0x3E, 0x2B,
      0x0A, 0x0A, 0x21] [⟨[0x33], [0x30, 0x31], ⟨[0x2D, 0x3E, 0x0A], [0x2B]⟩⟩] [0x21] := by
    refine ⟨?_, by decide⟩
    intro l hl
    rw [List.mem_singleton.mp hl]
    exact ⟨⟨by decide, List.all_eq_true.mp rfl, rfl, by decide⟩,
      ⟨by decide, List.all_eq_true.mp rfl, rfl, by decide⟩⟩
  have hcount : FewDigits [0x2B, 0x33, 0x2C, 0x30, 0x31, 0x3A, 0x2D, 0x3E, 0x0A, 0x2D, 0x3E, 0x2B,
      0x0A, 0x0A, 0x21] := fewDigits_of_length (by decide)
  obtain ⟨-, htaken, -⟩ := ofDump_grammar _ hcount (by
    intro lines rest h
    rw [(parses_unique h hparses).1]
    decide)
  obtain ⟨-, file, summary, v, hdump, hrecords, -, hopen, hall⟩ := htaken _ _ hparses
  exact ⟨file, summary, v, hdump, hrecords, hopen, hall⟩

def padded (zeros : Nat) : Line := ⟨List.replicate (zeros + 1) 0x30, [0x30], ⟨[], []⟩⟩

theorem spells_zeros (n : Nat) : Spells (List.replicate (n + 1) 0x30) 0 := by
  refine ⟨List.cons_ne_nil _ _, ?_, ?_, by decide⟩
  · intro d hd
    rw [List.eq_of_mem_replicate hd]
    rfl
  · generalize n + 1 = k
    induction k with
    | zero => rfl
    | succ k ih => exact ih

theorem parses_padded (zeros : Nat) :
    Parses ((padded zeros).text ++ [newline]) [padded zeros] [] := by
  refine ⟨?_, by rw [List.flatMap_singleton]⟩
  intro l hl
  rw [List.mem_singleton.mp hl]
  exact ⟨spells_zeros zeros, spells_zeros 0⟩

theorem size_padded (zeros : Nat) : size [(padded zeros).record] < UInt32.size := by
  change size [⟨[], []⟩] < UInt32.size
  decide

/-- Where the count of the digits is not positive, they are followed by one that is due. -/
theorem ofDump_padded {zeros : Nat} (h : ¬ 0 < Int32.ofNat (zeros + 1)) :
    ofDump ((padded zeros).text ++ [newline]) = .error (.dumpRecord 1 (.lengthDigit comma)) := by
  have hdigits := (spells_zeros zeros).digits
  have hvalue := (spells_zeros zeros).value
  rw [ofDump, decode, text_append, decodeFrom_plus, readRecord, padded,
    readLength_digits (by decide) hdigits (by rw [hvalue]; decide), List.length_replicate, hvalue,
    Int32.zero_add, readLength, if_neg fun hend => h hend.2, if_neg (by decide)]
  rfl

/-- A line with 2^31 digits parses and is refused: their count has wrapped around. -/
theorem ofDump_grammar_uncounted :
    Parses ((padded 2147483647).text ++ [newline]) [padded 2147483647] [] ∧
      size [(padded 2147483647).record] < UInt32.size ∧
      ofDump ((padded 2147483647).text ++ [newline]) =
        .error (.dumpRecord 1 (.lengthDigit comma)) :=
  ⟨parses_padded _, size_padded _, ofDump_padded (by decide)⟩

end Concordance.Proofs.DumpGrammar
