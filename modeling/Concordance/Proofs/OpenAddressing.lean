import Concordance.Proofs.Probing
import Concordance.Proofs.StoreImage

namespace Concordance.Proofs.OpenAddressing

open BlockStore BlockStore.Table Outcomes Probing StoreImage

/-- From a slot on, where the first one follows the last, the first empty slot is the other one. A
slot that is not there cannot be looked at. -/
inductive Probes (t : Array Slot) : Nat → Nat → Prop
  | stop {i : Nat} (hi : i < t.size) (hempty : Occupied (slotAt t i) = false) : Probes t i i
  | next {i j : Nat} (hi : i < t.size) (hfull : Occupied (slotAt t i) = true)
      (h : Probes t ((i + 1) % t.size) j) : Probes t i j

/-- Entries are put into a table one after the other, where start slots are remainders of division by
a number of 32 bits. One cannot divide by zero. -/
inductive Fills (n : UInt32) : Array Slot → List Slot → Array Slot → Prop
  | nil {t : Array Slot} : Fills n t [] t
  | cons {t u : Array Slot} {e : Slot} {es : List Slot} {i : Nat} (hn : n ≠ 0)
      (hprobe : Probes t (startSlot e.hash n).toNat i) (h : Fills n (t.setIfInBounds i e) es u) :
      Fills n t (e :: es) u

/-- The loop ends with this table and with no other. It has twice as many slots as entries, each
entry is reached from its start slot over slots that are taken, and entries of one hash in their
order. -/
structure Addressed (es : List Slot) (t : Array Slot) : Prop where
  filled : ∀ u, Fills (UInt32.ofNat (2 * es.length))
    (Array.replicate (2 * es.length) Slot.empty) es u ↔ u = t
  size : t.size = 2 * es.length
  entries : (t.toList.filter Occupied).Perm es
  reached : ∀ (i : Nat) (s : Slot), t[i]? = some s → Occupied s = true →
    ∃ k < t.size, (firstSlot s.hash t.size + k) % t.size = i ∧
      ∀ j ≤ k, ∃ s', t[(firstSlot s.hash t.size + j) % t.size]? = some s' ∧ Occupied s' = true
  ordered : ∀ h : UInt32,
    ((cycle t h).filter Occupied).filter (·.hash = h) = es.filter (·.hash = h)
  vacant : t.toList.countP (!Occupied ·) = es.length
  ends : es ≠ [] → ∀ start : Nat, ∃ k < t.size, ∃ s, t[(start + k) % t.size]? = some s ∧
    Occupied s = false

section

variable {t u : Array Slot} {i j k m n : Nat} {e : Slot} {es held : List Slot}

theorem Probes.unique (h : Probes t i j) (h' : Probes t i k) : j = k := by
  induction h with
  | stop hi hempty =>
      cases h' with
      | stop => rfl
      | next _ hfull _ =>
          rw [hempty] at hfull
          cases hfull
  | next hi hfull h ih =>
      cases h' with
      | stop _ hempty =>
          rw [hempty] at hfull
          cases hfull
      | next _ _ h' => exact ih h'

theorem probes_of_probe (hi : i < t.size) (h : probe t i m = some j) : Probes t i j := by
  induction m generalizing i with
  | zero => cases h
  | succ m ih =>
      rw [probe, isEmptyAt_eq t hi] at h
      cases hfull : Occupied (slotAt t i) with
      | false =>
          rw [hfull, Bool.not_false, if_pos rfl] at h
          obtain rfl := Option.some.inj h
          exact .stop hi hfull
      | true =>
          rw [hfull, Bool.not_true, if_neg Bool.false_ne_true] at h
          exact .next hi hfull (ih (Nat.mod_lt _ (by omega)) h)

theorem probes_freeSlot (e : Slot) (hroom : HasRoom t) :
    ∃ i, Probes t (firstSlot e.hash t.size) i ∧ place t e = t.setIfInBounds i e := by
  obtain ⟨i, hi⟩ := exists_freeSlot hroom e.hash
  have hprobe := hi
  rw [freeSlot?, if_neg hroom.divides] at hprobe
  exact ⟨i, probes_of_probe (firstSlot_lt e.hash hroom.divides) hprobe, by rw [place, hi]⟩

theorem fills_iff (ht : Holds t held) (hn : t.size = n) (hdivides : UInt32.ofNat n ≠ 0)
    (hpos : ∀ e ∈ es, e.position ≠ 0) (hlen : held.length + es.length < n ∨ es = []) :
    Fills (UInt32.ofNat n) t es u ↔ u = es.foldl place t := by
  induction es generalizing t held with
  | nil =>
      constructor
      · rintro ⟨⟩
        rfl
      · rintro rfl
        exact .nil
  | cons e es ih =>
      have hlt : held.length + (es.length + 1) < n := by simpa using hlen
      have hroom : HasRoom t := ⟨ht.exists_empty (by omega), hn ▸ hdivides⟩
      have hocc : Occupied e = true := by simpa [Occupied] using hpos e List.mem_cons_self
      obtain ⟨i, hprobe, hplace⟩ := probes_freeSlot e hroom
      have hrest := ih (ht.place hocc hroom) ((size_place t e).trans hn)
        (fun x hx => hpos x (List.mem_cons_of_mem e hx)) (.inl (by simp; omega))
      rw [hn] at hprobe
      rw [List.foldl_cons, ← hrest]
      constructor
      · rintro (_ | ⟨-, hprobe', h⟩)
        rwa [hprobe'.unique hprobe, ← hplace] at h
      · intro h
        rw [hplace] at h
        exact .cons hdivides hprobe h

theorem not_fills_zero (hne : es ≠ []) : ¬ Fills 0 t es u := by
  rintro (_ | ⟨hzero, -, -⟩)
  · exact hne rfl
  · exact hzero rfl

end

section

variable {t : Array Slot} {es : List Slot}

theorem slotAt_of_getElem? {i : Nat} {s : Slot} (h : t[i]? = some s) :
    i < t.size ∧ slotAt t i = s := by
  obtain ⟨hi, hs⟩ := Array.getElem?_eq_some_iff.mp h
  exact ⟨hi, by simp [slotAt, hi, hs]⟩

theorem getElem?_eq_slotAt {i : Nat} (hi : i < t.size) : t[i]? = some (slotAt t i) := by
  simp [slotAt, hi]

/-- A walk through a whole table comes by every slot. -/
theorem exists_walk (start : Nat) {i n : Nat} (hi : i < n) : ∃ k < n, (start + k) % n = i := by
  refine ⟨(i + (n - start % n)) % n, Nat.mod_lt _ (by omega), ?_⟩
  have hmod := Nat.mod_lt start (Nat.zero_lt_of_lt hi)
  rw [Nat.add_mod_mod, ← Nat.mod_add_mod,
    show start % n + (i + (n - start % n)) = i + n by omega, Nat.add_mod_right,
    Nat.mod_eq_of_lt hi]

theorem getElem_cycle {h : UInt32} {k : Nat} (hk : k < (cycle t h).length) :
    (cycle t h)[k] = slotAt t ((firstSlot h t.size + k) % t.size) := by
  simp [cycle, walk]

/-- An entry that a search for its hash comes by is met before the first empty slot. -/
theorem lt_length_run (ht : Holds t es) {h : UInt32} {k : Nat} (hk : k < (cycle t h).length)
    (hocc : Occupied (cycle t h)[k] = true) (hhash : (cycle t h)[k].hash = h) :
    k < (run t h).length := by
  by_contra hbehind
  have hsplit : cycle t h = run t h ++ (cycle t h).dropWhile Occupied :=
    List.takeWhile_append_dropWhile.symm
  have hmem : (cycle t h)[k] ∈ (cycle t h).dropWhile Occupied := by
    have hk' : k < (run t h ++ (cycle t h).dropWhile Occupied).length := hsplit ▸ hk
    rw [List.getElem_of_eq hsplit hk, List.getElem_append_right (Nat.le_of_not_lt hbehind)]
    exact List.getElem_mem _
  have hrun : (run t h).filter Occupied = run t h :=
    List.filter_eq_self.mpr fun _ hx => List.mem_takeWhile_imp hx
  have hnone := ht.none_behind h
  rw [hsplit, List.filter_append, List.filter_append, hrun, List.append_right_eq_self] at hnone
  have hnot := List.filter_eq_nil_iff.mp hnone _ (List.mem_filter.mpr ⟨hmem, hocc⟩)
  exact hnot (decide_eq_true hhash)

theorem reached_of_holds (ht : Holds t es) {i : Nat} {s : Slot} (hs : t[i]? = some s)
    (hocc : Occupied s = true) : ∃ k < t.size, (firstSlot s.hash t.size + k) % t.size = i ∧
      ∀ j ≤ k, ∃ s', t[(firstSlot s.hash t.size + j) % t.size]? = some s' ∧
        Occupied s' = true := by
  obtain ⟨hi, hslot⟩ := slotAt_of_getElem? hs
  obtain ⟨k, hk, hwalk⟩ := exists_walk (firstSlot s.hash t.size) hi
  have hlength := length_cycle t s.hash
  have hkc : k < (cycle t s.hash).length := hlength ▸ hk
  have hself : (cycle t s.hash)[k] = s := by rw [getElem_cycle, hwalk, hslot]
  have hmet : k < (run t s.hash).length :=
    lt_length_run ht hkc (by rw [hself, hocc]) (by rw [hself])
  refine ⟨k, hk, hwalk, ?_⟩
  intro j hj
  have hjrun : j < (run t s.hash).length := Nat.lt_of_le_of_lt hj hmet
  have hjlt : (firstSlot s.hash t.size + j) % t.size < t.size :=
    Nat.mod_lt _ (Nat.zero_lt_of_lt hk)
  refine ⟨_, getElem?_eq_slotAt hjlt, ?_⟩
  rw [← getElem_cycle (hlength ▸ Nat.lt_of_le_of_lt hj hk),
    ← (List.takeWhile_prefix Occupied).getElem hjrun]
  exact List.mem_takeWhile_imp (List.getElem_mem hjrun)

theorem countP_empty (ht : Holds t es) :
    t.toList.countP (!Occupied ·) + es.length = t.size := by
  have hsum := List.length_eq_countP_add_countP Occupied (l := t.toList)
  rw [List.countP_eq_length_filter (p := Occupied), ht.perm.length_eq, Array.length_toList] at hsum
  have hnot : t.toList.countP (!Occupied ·) = t.toList.countP fun s => ¬ Occupied s = true := by
    apply List.countP_congr
    simp
  omega

theorem exists_end (ht : Holds t es) (hlen : es.length < t.size) (start : Nat) :
    ∃ k < t.size, ∃ s, t[(start + k) % t.size]? = some s ∧ Occupied s = false := by
  obtain ⟨s, hs, hempty⟩ := ht.exists_empty hlen
  obtain ⟨i, hi, rfl⟩ := List.getElem_of_mem hs
  rw [Array.length_toList] at hi
  obtain ⟨k, hk, hwalk⟩ := exists_walk start hi
  exact ⟨k, hk, t[i], by rw [hwalk, Array.getElem?_eq_getElem hi], by simpa using hempty⟩

theorem fills_build (hpos : ∀ e ∈ es, e.position ≠ 0) (h : Divides es) (u : Array Slot) :
    Fills (UInt32.ofNat (2 * es.length)) (Array.replicate (2 * es.length) Slot.empty) es u ↔
      u = build es := by
  obtain rfl | hdivides := h
  · constructor
    · rintro ⟨⟩
      rfl
    · rintro rfl
      exact .nil
  · apply fills_iff (holds_replicate _) Array.size_replicate hdivides hpos
    rcases List.eq_nil_or_concat es with rfl | ⟨_, _, rfl⟩
    · exact .inr rfl
    · left
      simp

theorem addressed_build (hpos : ∀ e ∈ es, e.position ≠ 0) (h : Divides es) :
    Addressed es (build es) := by
  have ht := holds_build es hpos h
  have hsize := size_build es
  refine ⟨fills_build hpos h, hsize, ht.perm, fun _ _ => reached_of_holds ht, ?_, ?_, ?_⟩
  · exact fun h => (ht.none_behind h).trans (ht.found h)
  · have := countP_empty ht
    omega
  · intro hne
    have := List.length_pos_iff.mpr hne
    exact exists_end ht (by omega)

end

section

variable {b b' : Builder} {r : Record}

/-- The builder's records lie behind the header, each takes eight bytes or more, and the last one
begins at a place that can be addressed. -/
structure Spaced (b : Builder) : Prop where
  position : ∀ e ∈ b.entries, e.position ≠ 0
  behind : headerSize + 8 * b.entries.length ≤ b.out.position
  few : 8 * b.entries.length < UInt32.size

theorem add_eq_ok (h : b.add r = .ok b') : b.out.position < UInt32.size ∧
    b'.entries = ⟨KeyHash.hash r.key, UInt32.ofNat b.out.position⟩ :: b.entries ∧
    b'.out.position = b.out.position + 8 + r.key.length + r.value.length := by
  obtain ⟨m, -, h⟩ := bind_eq_ok h
  obtain ⟨n, -, h⟩ := bind_eq_ok h
  obtain ⟨p, hp, h⟩ := bind_eq_ok h
  obtain rfl := Except.ok.inj h
  rw [Positioned.Writer.offset] at hp
  split at hp
  case isTrue hlt =>
    obtain rfl := Except.ok.inj hp
    refine ⟨hlt, rfl, ?_⟩
    simp only [Positioned.Writer.writePair, Positioned.Writer.writeU32,
      Positioned.Writer.position_write, LittleEndian.length_u32]
  case isFalse => cases hp

theorem spaced_empty : Spaced Builder.empty := by
  refine ⟨?_, ?_, by decide⟩
  · intro e he
    cases he
  · rw [built_empty.position]
    exact Nat.le_refl _

theorem Spaced.add (hb : Spaced b) (h : b.add r = .ok b') : Spaced b' := by
  obtain ⟨hlt, hentries, hposition⟩ := add_eq_ok h
  have hbehind := hb.behind
  have hheader : headerSize = 2048 := rfl
  refine ⟨?_, ?_, ?_⟩
  · intro e he
    rw [hentries] at he
    rcases List.mem_cons.mp he with rfl | hold
    · intro hzero
      have := congrArg UInt32.toNat hzero
      rw [UInt32.toNat_ofNat_of_lt' hlt, UInt32.toNat_zero] at this
      omega
    · exact hb.position e hold
  · rw [hentries, hposition, List.length_cons]
    omega
  · rw [hentries, List.length_cons]
    omega

theorem Spaced.foldlM_add {rs : List Record} (hb : Spaced b)
    (h : rs.foldlM Builder.add b = .ok b') : Spaced b' := by
  induction rs generalizing b with
  | nil =>
      obtain rfl := Except.ok.inj h
      exact hb
  | cons r rs ih =>
      rw [List.foldlM_cons] at h
      obtain ⟨b₁, hadd, hrest⟩ := bind_eq_ok h
      exact ih (hb.add hadd) hrest

/-- In no store that can be written has a table so many slots that their number takes more than 32
bits. -/
theorem bucket_fits {rs : List Record} (h : rs.foldlM Builder.add Builder.empty = .ok b) (i : Nat) :
    (∀ e ∈ b.bucket i, e.position ≠ 0) ∧ 2 * (b.bucket i).length < UInt32.size := by
  have hb := spaced_empty.foldlM_add h
  constructor
  · intro e he
    exact hb.position e (List.mem_of_mem_filter (List.mem_reverse.mp he))
  · have hfew := hb.few
    have hle : (b.bucket i).length ≤ b.entries.length := by
      rw [Builder.bucket, List.length_reverse]
      exact List.length_filter_le _ _
    omega

end

/-- The table of any entries that have positions is the one that is due, unless there are entries
but the number of its slots is cut to 0. It is not for the tables of any store that is written. -/
theorem build_addressed :
    (∀ es : List Slot, (∀ e ∈ es, e.position ≠ 0) →
      (Addressed es (build es) ↔ es = [] ∨ UInt32.ofNat (2 * es.length) ≠ 0)) ∧
    ∀ (rs : List Record) (b : Builder) (i : Nat),
      rs.foldlM Builder.add Builder.empty = .ok b → Addressed (b.bucket i) (build (b.bucket i)) := by
  constructor
  · intro es hpos
    refine ⟨fun h => ?_, addressed_build hpos⟩
    by_contra! hnot
    have hfills := (h.filled _).mpr rfl
    rw [hnot.2] at hfills
    exact not_fills_zero hnot.1 hfills
  · intro rs b i hadded
    obtain ⟨hpos, hfits⟩ := bucket_fits hadded i
    exact addressed_build hpos (divides_of_lt hfits)

/-- Both searches begin at the last of four slots. -/
theorem build_addressed_wraps :
    (∀ e ∈ [(⟨775, 100⟩ : Slot), ⟨1799, 200⟩], e.position ≠ 0) ∧
      build [⟨775, 100⟩, ⟨1799, 200⟩] = #[⟨1799, 200⟩, Slot.empty, Slot.empty, ⟨775, 100⟩] ∧
      Addressed [⟨775, 100⟩, ⟨1799, 200⟩] #[⟨1799, 200⟩, Slot.empty, Slot.empty, ⟨775, 100⟩] ∧
      ∃ b, [⟨[], []⟩, ⟨[], [0]⟩].foldlM Builder.add Builder.empty = .ok b ∧
        (b.bucket 5).length = 2 ∧ Addressed (b.bucket 5) (build (b.bucket 5)) := by
  have hpos : ∀ e ∈ [(⟨775, 100⟩ : Slot), ⟨1799, 200⟩], e.position ≠ 0 := by decide
  have hbuild : build [⟨775, 100⟩, ⟨1799, 200⟩] =
      #[⟨1799, 200⟩, Slot.empty, Slot.empty, ⟨775, 100⟩] := by decide
  have haddressed := (build_addressed.1 [⟨775, 100⟩, ⟨1799, 200⟩] hpos).mpr (.inr (by decide))
  rw [hbuild] at haddressed
  rcases foldlM_add_spec built_empty [⟨[], []⟩, ⟨[], [0]⟩] with ⟨b, hadded, hb⟩ | ⟨hlarge, -⟩
  · have hlength : (b.bucket 5).length = 2 := by
      rw [Builder.bucket, hb.entries]
      decide +kernel
    exact ⟨hpos, hbuild, haddressed, b, hadded, hlength, build_addressed.2 _ b 5 hadded⟩
  · exact absurd hlarge (by decide)

/-- Of 2^31 entries the table has 2^32 slots, a number that is cut to 0, and none can be put in. -/
theorem build_undivided :
    (∀ e ∈ List.replicate 2147483648 (⟨0, 1⟩ : Slot), e.position ≠ 0) ∧
      ∀ u, ¬ Fills (UInt32.ofNat (2 * (List.replicate 2147483648 (⟨0, 1⟩ : Slot)).length))
        (Array.replicate (2 * (List.replicate 2147483648 (⟨0, 1⟩ : Slot)).length) Slot.empty)
        (List.replicate 2147483648 ⟨0, 1⟩) u := by
  constructor
  · intro e he
    rw [List.eq_of_mem_replicate he]
    decide
  · intro u
    rw [List.length_replicate]
    apply not_fills_zero
    exact List.ne_nil_of_length_pos (by rw [List.length_replicate]; decide)

end Concordance.Proofs.OpenAddressing
