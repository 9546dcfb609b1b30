import Concordance.Proofs.IndexReading
import Concordance.Proofs.WordCounts

namespace Concordance.Proofs.Ranking

open Analysis (Analyzer AnalyzerConfig)
open BlockStore (Record headerSize)
open Index Outcomes StoreImage IndexImage IndexReading WordCounts

/-- A document as a builder takes it: its id, the text to be indexed, and the value that is stored
for it. -/
abbrev Source := Bytes × String × String

namespace Source

def id (d : Source) : Bytes := d.1

def indexed (d : Source) : String := d.2.1

def stored (d : Source) : String := d.2.2

end Source

def occurrences (a : Analyzer) (w : String) (d : Source) : Nat :=
  (a.words d.indexed ++ a.words d.stored).count w

def relevance (a : Analyzer) (query : String) (d : Source) : Nat :=
  ∑ w ∈ (a.words query).toFinset, occurrences a w d

structure Row where
  id : Bytes
  stored : Bytes
  score : Nat
  deriving DecidableEq

/-- Higher scores come first, and equal ones in ascending order of the ids. -/
def Row.precedes (x y : Row) : Bool := y.score < x.score || (x.score == y.score && x.id ≤ y.id)

/-- The documents in which a word of the query occurs, the best ones first. -/
def ranking (a : Analyzer) (docs : List Source) (query : String) (limit : Nat) : List Row :=
  (((docs.map fun d => (⟨d.id, Bytes.ofString d.stored, relevance a query d⟩ : Row)).filter
    (0 < ·.score)).mergeSort Row.precedes).take limit

def occurrenceList (a : Analyzer) (docs : List Source) (w : String) : List (Bytes × Nat) :=
  ((docs.map fun d => (d.id, occurrences a w d)).filter (0 < ·.2)).mergeSort (·.1 ≤ ·.1)

def storedFor (docs : List Source) (id : Bytes) : Option Bytes :=
  (docs.find? (·.id = id)).map fun d => Bytes.ofString d.stored

theorem precedes_trans (x y z : Row) (hxy : x.precedes y = true) (hyz : y.precedes z = true) :
    x.precedes z = true := by
  simp only [Row.precedes, Bool.or_eq_true, Bool.and_eq_true, decide_eq_true_eq, beq_iff_eq]
    at hxy hyz ⊢
  rcases hxy with hxy | ⟨hxy, hid⟩
  · rcases hyz with hyz | ⟨hyz, -⟩
    · exact .inl (by omega)
    · exact .inl (by omega)
  · rcases hyz with hyz | ⟨hyz, hid'⟩
    · exact .inl (by omega)
    · exact .inr ⟨by omega, List.le_trans hid hid'⟩

theorem precedes_total (x y : Row) : (x.precedes y || y.precedes x) = true := by
  simp only [Row.precedes, Bool.or_eq_true, Bool.and_eq_true, decide_eq_true_eq, beq_iff_eq]
  rcases Nat.lt_trichotomy x.score y.score with h | h | h
  · exact .inr (.inl h)
  · rcases List.le_total x.id y.id with hid | hid
    · exact .inl (.inr ⟨h, hid⟩)
    · exact .inr (.inr ⟨h.symm, hid⟩)
  · exact .inl (.inl h)

theorem precedes_antisymm {x y : Row} (hxy : x.precedes y = true) (hyx : y.precedes x = true) :
    x.id = y.id ∧ x.score = y.score := by
  simp only [Row.precedes, Bool.or_eq_true, Bool.and_eq_true, decide_eq_true_eq, beq_iff_eq]
    at hxy hyx
  rcases hxy with hxy | ⟨hxy, hid⟩
  · rcases hyx with hyx | ⟨hyx, -⟩
    · omega
    · omega
  · rcases hyx with hyx | ⟨-, hid'⟩
    · omega
    · exact ⟨List.le_antisymm hid hid', hxy⟩

def entryOf (a : Analyzer) (d : Source) : Entry :=
  ⟨Text.Tally.ofList (a.words d.indexed ++ a.words d.stored), Bytes.ofString d.stored⟩

theorem count_entryOf (a : Analyzer) (w : String) (d : Source) :
    Text.Tally.count w (entryOf a d).words = occurrences a w d :=
  Text.Tally.count_ofList w _

structure Taken (a : Analyzer) (docs : List Source) (b : Builder) : Prop where
  analyzer : b.analyzer = a
  nodup : (docs.map Source.id).Nodup
  entries : ∀ id : Bytes, b.entries[id]? = (docs.find? (·.id = id)).map (entryOf a)
  vocabulary : ∀ w, w ∈ b.vocabulary ↔ ∃ d ∈ docs, 0 < occurrences a w d

variable {a : Analyzer} {docs : List Source} {b : Builder}

theorem taken_ofConfig (c : AnalyzerConfig) :
    Taken (Analyzer.ofConfig c) [] (Builder.ofConfig c) := by
  refine ⟨rfl, List.nodup_nil, fun id => ?_, fun w => ?_⟩
  · simp [Builder.ofConfig]
  · simp [Builder.ofConfig]

theorem find?_eq_none_of_fresh {d : Source} (h : d.id ∉ docs.map Source.id) :
    docs.find? (·.id = d.id) = none := by
  rw [List.find?_eq_none]
  intro e he heq
  exact h (List.mem_map.mpr ⟨e, he, by simpa using heq⟩)

theorem Taken.add (h : Taken a docs b) {d : Source} (hfresh : d.id ∉ docs.map Source.id) :
    ∃ b', b.add d.id d.indexed d.stored = .ok b' ∧ Taken a (docs ++ [d]) b' := by
  have hnone : b.entries[d.id]? = none := by
    rw [h.entries, find?_eq_none_of_fresh hfresh, Option.map_none]
  have hcontains : b.entries.contains d.id = false := by
    rw [Std.ExtTreeMap.contains_eq_isSome_getElem?, hnone, Option.isSome_none]
  have hadd : b.add d.id d.indexed d.stored = .ok { b with
      entries := b.entries.insert d.id (entryOf b.analyzer d)
      vocabulary := b.vocabulary.insertMany ((entryOf b.analyzer d).words.map (·.1)) } := by
    rw [Builder.add, hcontains]
    rfl
  refine ⟨_, hadd, h.analyzer, ?_, ?_, ?_⟩
  · rw [List.map_append, List.nodup_append]
    refine ⟨h.nodup, by simp, ?_⟩
    intro x hx y hy heq
    obtain rfl : y = d.id := by simpa using hy
    exact hfresh (heq ▸ hx)
  · intro id
    rw [Std.ExtTreeMap.getElem?_insert, List.find?_append, h.analyzer]
    by_cases hid : d.id = id
    · subst hid
      rw [find?_eq_none_of_fresh hfresh]
      simp [entryOf]
    · simp [hid, h.entries]
  · intro w
    have hcount : 0 < occurrences a w d ↔ w ∈ a.words d.indexed ++ a.words d.stored :=
      List.count_pos_iff
    have hwords : w ∈ (entryOf a d).words.map (·.1) ↔ 0 < occurrences a w d := by
      rw [hcount]
      exact mem_keys_ofList
    rw [h.analyzer, Std.ExtTreeSet.mem_insertMany_list, List.contains_iff_mem, h.vocabulary, hwords]
    simp only [List.mem_append, List.mem_singleton]
    constructor
    · rintro (⟨e, he, hw⟩ | hw)
      · exact ⟨e, .inl he, hw⟩
      · exact ⟨d, .inr rfl, hw⟩
    · rintro ⟨e, he | rfl, hw⟩
      · exact .inl ⟨e, he, hw⟩
      · exact .inr hw

theorem Taken.addAll (h : Taken a docs b) {new : List Source}
    (hnew : ((docs ++ new).map Source.id).Nodup) :
    ∃ b', b.addAll new = .ok b' ∧ Taken a (docs ++ new) b' := by
  induction new generalizing docs b with
  | nil => exact ⟨b, rfl, by simpa using h⟩
  | cons d new ih =>
      have hsplit : docs ++ d :: new = (docs ++ [d]) ++ new := by simp
      have hfresh : d.id ∉ docs.map Source.id := by
        rw [List.map_append, List.map_cons, List.nodup_append] at hnew
        exact fun hmem => hnew.2.2 d.id hmem d.id (by simp) rfl
      obtain ⟨b', hadd, htaken⟩ := h.add hfresh
      rw [hsplit] at hnew ⊢
      obtain ⟨b'', hall, htaken'⟩ := ih htaken hnew
      refine ⟨b'', ?_, htaken'⟩
      change (b.add d.id d.indexed d.stored >>= fun b => Builder.addAll b new) = _
      rw [hadd, ok_bind, hall]

theorem find?_eq_some_iff {α : Type} {key : α → Bytes} {l : List α} (hnd : (l.map key).Nodup)
    {k : Bytes} {x : α} : l.find? (key · = k) = some x ↔ x ∈ l ∧ key x = k := by
  constructor
  · intro h
    exact ⟨List.mem_of_find?_eq_some h, by simpa using List.find?_some h⟩
  · rintro ⟨hx, rfl⟩
    induction l with
    | nil => simp at hx
    | cons y l ih =>
        rw [List.map_cons, List.nodup_cons] at hnd
        rcases List.mem_cons.mp hx with rfl | hx
        · simp
        · have hne : key y ≠ key x := fun heq => hnd.1 (heq ▸ List.mem_map.mpr ⟨x, hx, rfl⟩)
          rw [List.find?_cons_of_neg (by simpa using hne)]
          exact ih hnd.2 hx

theorem Taken.mem_entries (h : Taken a docs b) {id : Bytes} {e : Entry} :
    (id, e) ∈ b.entries.toList ↔ ∃ d ∈ docs, d.id = id ∧ e = entryOf a d := by
  rw [Std.ExtTreeMap.mem_toList_iff_getElem?_eq_some, h.entries]
  constructor
  · intro hmap
    obtain ⟨d, hd, rfl⟩ := Option.map_eq_some_iff.mp hmap
    obtain ⟨hmem, hid⟩ := (find?_eq_some_iff h.nodup).mp hd
    exact ⟨d, hmem, hid, rfl⟩
  · rintro ⟨d, hd, hid, rfl⟩
    rw [(find?_eq_some_iff h.nodup).mpr ⟨hd, hid⟩, Option.map_some]

theorem mem_postingsOf {w : String} {es : List (Bytes × Entry)} {p : Posting} :
    p ∈ Builder.postingsOf w es ↔ ∃ e, (p.id, e) ∈ es ∧ Text.Tally.count w e.words ≠ 0 ∧
      p.count = UInt64.ofNat (Text.Tally.count w e.words) := by
  obtain ⟨id, n⟩ := p
  induction es with
  | nil => simp [Builder.postingsOf]
  | cons x es ih =>
      obtain ⟨k, f⟩ := x
      rw [postingsOf_cons]
      by_cases hzero : Text.Tally.count w f.words = 0
      · rw [if_pos hzero, ih]
        constructor
        · rintro ⟨e, he, hn⟩
          exact ⟨e, by simp [he], hn⟩
        · rintro ⟨e, he, hn⟩
          rcases List.mem_cons.mp he with heq | he
          · cases heq
            exact absurd hzero hn.1
          · exact ⟨e, he, hn⟩
      · rw [if_neg hzero, List.mem_cons, ih]
        constructor
        · rintro (heq | ⟨e, he, hn⟩)
          · cases heq
            exact ⟨f, by simp, hzero, rfl⟩
          · exact ⟨e, by simp [he], hn⟩
        · rintro ⟨e, he, hn⟩
          rcases List.mem_cons.mp he with heq | he
          · cases heq
            exact .inl (by rw [← hn.2])
          · exact .inr ⟨e, he, hn⟩

theorem Taken.mem_listing (h : Taken a docs b) {w : String} {p : Posting} :
    p ∈ listing b w ↔ ∃ d ∈ docs, d.id = p.id ∧ 0 < occurrences a w d ∧
      p.count = UInt64.ofNat (occurrences a w d) := by
  have hall : p ∈ Builder.postingsOf w b.entries.toList ↔ ∃ d ∈ docs, d.id = p.id ∧
      0 < occurrences a w d ∧ p.count = UInt64.ofNat (occurrences a w d) := by
    rw [mem_postingsOf]
    constructor
    · rintro ⟨e, he, hn, hp⟩
      obtain ⟨d, hd, hid, rfl⟩ := h.mem_entries.mp he
      rw [count_entryOf] at hn hp
      exact ⟨d, hd, hid, Nat.pos_of_ne_zero hn, hp⟩
    · rintro ⟨d, hd, hid, hn, hp⟩
      refine ⟨entryOf a d, h.mem_entries.mpr ⟨d, hd, hid, rfl⟩, ?_⟩
      rw [count_entryOf]
      exact ⟨Nat.ne_of_gt hn, hp⟩
  rw [listing]
  split
  · exact hall
  · rename_i hw
    constructor
    · intro hp
      simp at hp
    · rintro ⟨d, hd, -, hn, -⟩
      exact absurd ((h.vocabulary w).mpr ⟨d, hd, hn⟩) hw

theorem ids_listing_nodup (b : Builder) (w : String) : ((listing b w).map (·.id)).Nodup :=
  nodup_of_ascend (ids_listing_ascend b w)

end Concordance.Proofs.Ranking
