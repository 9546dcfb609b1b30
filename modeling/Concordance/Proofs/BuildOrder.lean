import Std.Data.HashMap.Lemmas
import Std.Data.HashSet.Lemmas
import Concordance.Proofs.ByteOrder
import Concordance.Proofs.Ranking

namespace Concordance.Proofs.BuildOrder

open Analysis (Analyzer AnalyzerConfig)
open BlockStore (Record make)
open Index Outcomes IndexImage Ranking ByteOrder

variable {a : Analyzer} {docs docs' : List Source} {b b' : Builder}

section

variable {σ : Type} (add : Source → EStateM IndexFault σ Unit)

def offered (calls : List Source) (s : σ) : σ := calls.foldl (fun s d => stateOf (add d s)) s

def accepted : List Source → σ → List Source
  | [], _ => []
  | d :: calls, s =>
      match add d s with
      | .ok _ t => d :: accepted calls t
      | .error _ t => accepted calls t

def newOnes (seen : List Bytes) : List Source → List Source
  | [] => []
  | d :: calls => if d.id ∈ seen then newOnes seen calls else d :: newOnes (seen ++ [d.id]) calls

/-- A builder takes a document if its id is new, and is left as it was otherwise. -/
def Selects (R : List Source → σ → Prop) : Prop :=
  ∀ docs s d, R docs s → if d.id ∈ docs.map Source.id then
    add d s = .error (.duplicateDocument d.id) s else ∃ t, add d s = .ok () t ∧ R (docs ++ [d]) t

variable {add} {R : List Source → σ → Prop}

theorem Selects.run (h : Selects add R) {docs : List Source} {s : σ} (hs : R docs s)
    (calls : List Source) : accepted add calls s = newOnes (docs.map Source.id) calls ∧
      R (docs ++ accepted add calls s) (offered add calls s) := by
  induction calls generalizing docs s with
  | nil => exact ⟨rfl, by simpa [accepted, offered] using hs⟩
  | cons d calls ih =>
      have hstep := h docs s d hs
      rw [newOnes, offered, List.foldl_cons, accepted]
      by_cases hseen : d.id ∈ docs.map Source.id
      · rw [if_pos hseen] at hstep ⊢
        rw [hstep]
        exact ih hs
      · rw [if_neg hseen] at hstep ⊢
        obtain ⟨t, hadd, ht⟩ := hstep
        obtain ⟨hids, hrest⟩ := ih ht
        rw [hadd]
        rw [List.append_assoc] at hrest
        rw [List.map_append, List.map_singleton] at hids
        exact ⟨congrArg (d :: ·) hids, hrest⟩

end

def replacing {ε σ : Type} (make : σ → Except ε σ) : EStateM ε σ Unit := fun s =>
  match make s with
  | .ok t => .ok () t
  | .error e => .error e s

def offer (d : Source) : EStateM IndexFault Builder Unit :=
  replacing fun b => b.add d.id d.indexed d.stored

theorem Taken.refuse (h : Taken a docs b) {d : Source} (hseen : d.id ∈ docs.map Source.id) :
    b.add d.id d.indexed d.stored = .error (.duplicateDocument d.id) := by
  obtain ⟨e, he, hid⟩ := List.mem_map.mp hseen
  have hcontains : b.entries.contains d.id = true := by
    rw [Std.ExtTreeMap.contains_eq_isSome_getElem?, h.entries,
      (find?_eq_some_iff h.nodup).mpr ⟨he, hid⟩]
    rfl
  rw [Builder.add, hcontains]
  rfl

theorem Taken.of_addAll (h : Taken a docs b) {new : List Source} (hadd : b.addAll new = .ok b') :
    Taken a (docs ++ new) b' := by
  induction new generalizing docs b with
  | nil =>
      obtain rfl : b = b' := Except.ok.inj hadd
      simpa using h
  | cons d new ih =>
      change (b.add d.id d.indexed d.stored >>= fun b => b.addAll new) = .ok b' at hadd
      by_cases hseen : d.id ∈ docs.map Source.id
      · rw [Taken.refuse h hseen, error_bind] at hadd
        cases hadd
      · obtain ⟨b₁, hone, htaken⟩ := h.add hseen
        rw [hone, ok_bind] at hadd
        have hall := ih htaken hadd
        rwa [List.append_assoc] at hall

theorem selects_offer : Selects offer (Taken a) := by
  intro docs b d h
  split
  · rename_i hseen
    rw [offer, replacing, Taken.refuse h hseen]
  · rename_i hnew
    obtain ⟨b', hadd, htaken⟩ := h.add hnew
    exact ⟨b', by rw [offer, replacing, hadd], htaken⟩

theorem Taken.ext (h : Taken a docs b) (h' : Taken a docs' b')
    (hsame : ∀ d, d ∈ docs ↔ d ∈ docs') : b = b' := by
  have hentries : b.entries = b'.entries := by
    apply Std.ExtTreeMap.ext_getElem?
    intro id
    rw [h.entries, h'.entries]
    congr 1
    apply Option.ext
    intro d
    rw [find?_eq_some_iff h.nodup, find?_eq_some_iff h'.nodup, hsame]
  have hvocabulary : b.vocabulary = b'.vocabulary := by
    apply Std.ExtTreeSet.ext_mem
    intro w
    rw [h.vocabulary, h'.vocabulary]
    simp only [hsame]
  have hanalyzer : b.analyzer = b'.analyzer := h.analyzer.trans h'.analyzer.symm
  obtain ⟨a₁, es₁, ws₁⟩ := b
  obtain ⟨a₂, es₂, ws₂⟩ := b'
  obtain rfl := hanalyzer
  obtain rfl := hentries
  obtain rfl := hvocabulary
  rfl

/-- A builder that keeps its documents in the order of the calls, and by hash the ids and how often
each word occurs in each document. -/
structure Gatherer where
  analyzer : Analyzer
  documents : List (Bytes × Bytes)
  ids : Std.HashSet Bytes
  frequencies : Std.HashMap String (Std.HashMap Bytes UInt64)

namespace Gatherer

def ofConfig (c : AnalyzerConfig) : Gatherer := ⟨Analyzer.ofConfig c, [], ∅, ∅⟩

def countWord (id : Bytes) (fs : Std.HashMap String (Std.HashMap Bytes UInt64)) (w : String) :
    Std.HashMap String (Std.HashMap Bytes UInt64) :=
  fs.alter w fun counts => some ((counts.getD ∅).alter id fun n => some (n.getD 0 + 1))

def add (d : Source) : EStateM IndexFault Gatherer Unit := do
  let g ← get
  if g.ids.contains d.id then throw (.duplicateDocument d.id)
  let words := g.analyzer.words d.indexed ++ g.analyzer.words d.stored
  modify fun g => { g with frequencies := words.foldl (countWord d.id) g.frequencies }
  modify fun g => { g with ids := g.ids.insert d.id }
  modify fun g => { g with documents := g.documents ++ [(d.id, Bytes.ofString d.stored)] }

/-- The words with their counts, in any order in which the tables may be gone through. -/
structure Lists (g : Gatherer) (words : List (String × List (Bytes × UInt64))) : Prop where
  keys : (words.map (·.1)).Perm g.frequencies.keys
  counts : ∀ x ∈ words, ∃ counts, g.frequencies[x.1]? = some counts ∧ x.2.Perm counts.toList

def inOrder {α : Type} (l : List (Bytes × α)) : List (Bytes × α) :=
  l.mergeSort fun x y => x.1 ≤ y.1

def documentRecords (documents : List (Bytes × Bytes)) : List Record :=
  (inOrder documents).map fun (id, stored) => ⟨id, stored⟩

def wordRecords (words : List (String × List (Bytes × UInt64))) : List Record :=
  (inOrder (words.map fun (w, counts) => (Bytes.ofString w, counts))).map fun (w, counts) =>
    ⟨w, Posting.encode ((inOrder counts).map fun (id, n) => ⟨id, n⟩)⟩

def finish (g : Gatherer) (words : List (String × List (Bytes × UInt64))) :
    Except FormatFault (List Bytes × Summary) := do
  let (documents, documentSummary) ← make (documentRecords g.documents)
  let (wordStore, wordSummary) ← make (wordRecords words)
  let header : Header :=
    ⟨g.analyzer.fingerprint, UInt64.ofNat documentSummary.bytes, UInt64.ofNat wordSummary.bytes,
      UInt64.ofNat g.documents.length, UInt64.ofNat words.length⟩
  return ([header.encode, documents, wordStore],
    ⟨g.documents.length, words.length, header.fileLength⟩)

def countOf (fs : Std.HashMap String (Std.HashMap Bytes UInt64)) (w : String) (id : Bytes) :
    Option UInt64 :=
  fs[w]? >>= fun counts => counts[id]?

end Gatherer

open Gatherer

variable {g : Gatherer} {fs : Std.HashMap String (Std.HashMap Bytes UInt64)}
  {words : List (String × List (Bytes × UInt64))}

theorem countOf_countWord (id : Bytes) (w x : String) (k : Bytes) :
    countOf (countWord id fs w) x k =
      if w = x ∧ id = k then some ((countOf fs x k).getD 0 + 1) else countOf fs x k := by
  rw [countOf, countWord, Std.HashMap.getElem?_alter]
  by_cases hw : w = x
  · subst hw
    rw [if_pos (beq_self_eq_true w)]
    change ((fs[w]?.getD ∅).alter id fun n => some (n.getD 0 + 1))[k]? = _
    rw [Std.HashMap.getElem?_alter]
    by_cases hk : id = k
    · subst hk
      rw [if_pos (beq_self_eq_true id), if_pos ⟨rfl, rfl⟩, countOf]
      cases fs[w]? <;> simp
    · rw [if_neg (by simpa using hk), if_neg (fun h => hk h.2), countOf]
      cases fs[w]? <;> simp
  · rw [if_neg (by simpa using hw), if_neg (fun h => hw h.1)]
    rfl

theorem mem_countWord (id : Bytes) (w x : String) : x ∈ countWord id fs w ↔ w = x ∨ x ∈ fs := by
  rw [countWord, Std.HashMap.mem_alter]
  by_cases hw : w = x <;> simp [hw]

theorem mem_foldl_countWord (id : Bytes) (ws : List String) (x : String) :
    x ∈ ws.foldl (countWord id) fs ↔ x ∈ ws ∨ x ∈ fs := by
  induction ws generalizing fs with
  | nil => simp
  | cons w ws ih =>
      rw [List.foldl_cons, ih, mem_countWord, List.mem_cons]
      tauto

theorem countOf_foldl_other {id k : Bytes} (hk : id ≠ k) (ws : List String) (x : String) :
    countOf (ws.foldl (countWord id) fs) x k = countOf fs x k := by
  induction ws generalizing fs with
  | nil => rfl
  | cons w ws ih => rw [List.foldl_cons, ih, countOf_countWord, if_neg (fun h => hk h.2)]

theorem countOf_foldl_self (id : Bytes) (ws : List String) (x : String) (n : Nat)
    (h : countOf fs x id = if n = 0 then none else some (UInt64.ofNat n)) :
    countOf (ws.foldl (countWord id) fs) x id =
      if n + ws.count x = 0 then none else some (UInt64.ofNat (n + ws.count x)) := by
  induction ws generalizing fs n with
  | nil => simpa using h
  | cons w ws ih =>
      rw [List.foldl_cons, List.count_cons]
      by_cases hw : w = x
      · subst hw
        have hnext : countOf (countWord id fs w) w id =
            if n + 1 = 0 then none else some (UInt64.ofNat (n + 1)) := by
          rw [countOf_countWord, if_pos ⟨rfl, rfl⟩, h, if_neg (Nat.succ_ne_zero n), UInt64.ofNat_add]
          split
          · rename_i hzero
            rw [hzero]
            rfl
          · rfl
        rw [ih (n + 1) hnext]
        simp [Nat.add_assoc, Nat.add_comm 1]
      · have hnext : countOf (countWord id fs w) x id =
            if n = 0 then none else some (UInt64.ofNat n) := by
          rw [countOf_countWord, if_neg (fun h => hw h.1), h]
        rw [ih n hnext]
        simp [hw]

structure Gathered (a : Analyzer) (docs : List Source) (g : Gatherer) : Prop where
  analyzer : g.analyzer = a
  documents : g.documents = docs.map fun d => (d.id, Bytes.ofString d.stored)
  ids : ∀ id, id ∈ g.ids ↔ id ∈ docs.map Source.id
  words : ∀ w, w ∈ g.frequencies ↔ ∃ d ∈ docs, 0 < occurrences a w d
  counts : ∀ w id n, countOf g.frequencies w id = some n ↔
    ∃ d ∈ docs, d.id = id ∧ 0 < occurrences a w d ∧ n = UInt64.ofNat (occurrences a w d)

theorem gathered_ofConfig (c : AnalyzerConfig) :
    Gathered (Analyzer.ofConfig c) [] (Gatherer.ofConfig c) := by
  refine ⟨rfl, rfl, fun id => ?_, fun w => ?_, fun w id n => ?_⟩
  · simp [Gatherer.ofConfig]
  · simp [Gatherer.ofConfig]
  · simp [Gatherer.ofConfig, countOf]

theorem Gathered.counts_add (h : Gathered a docs g) {d : Source}
    (hnew : d.id ∉ docs.map Source.id) (w : String) (id : Bytes) (n : UInt64) :
    countOf ((a.words d.indexed ++ a.words d.stored).foldl (countWord d.id) g.frequencies) w id =
      some n ↔ ∃ e ∈ docs ++ [d], e.id = id ∧ 0 < occurrences a w e ∧
        n = UInt64.ofNat (occurrences a w e) := by
  have hold : (∃ e ∈ docs, e.id = d.id ∧ 0 < occurrences a w e ∧
      n = UInt64.ofNat (occurrences a w e)) ↔ False := by
    constructor
    · rintro ⟨e, he, hid, -⟩
      exact hnew (List.mem_map.mpr ⟨e, he, hid⟩)
    · exact False.elim
  simp only [List.mem_append, List.mem_singleton, or_and_right, exists_or, exists_eq_left]
  by_cases hid : d.id = id
  · subst hid
    have hnone : countOf g.frequencies w d.id =
        if 0 = 0 then none else some (UInt64.ofNat 0) := by
      rw [if_pos rfl, Option.eq_none_iff_forall_ne_some]
      intro m hm
      obtain ⟨e, he, heq, -⟩ := (h.counts w d.id m).mp hm
      exact hnew (List.mem_map.mpr ⟨e, he, heq⟩)
    rw [countOf_foldl_self d.id _ w 0 hnone, hold, false_or, Nat.zero_add]
    change (if occurrences a w d = 0 then none else some (UInt64.ofNat (occurrences a w d))) = _ ↔ _
    split
    · rename_i hzero
      simp [hzero]
    · rename_i hne
      simp [Nat.pos_of_ne_zero hne, eq_comm]
  · rw [countOf_foldl_other hid, h.counts]
    simp [hid]

theorem add_of_new {d : Source} (h : g.ids.contains d.id = false) :
    Gatherer.add d g = .ok () {
      analyzer := g.analyzer
      documents := g.documents ++ [(d.id, Bytes.ofString d.stored)]
      ids := g.ids.insert d.id
      frequencies := (g.analyzer.words d.indexed ++ g.analyzer.words d.stored).foldl
        (countWord d.id) g.frequencies } := by
  rw [Gatherer.add, get_bind, h]
  rfl

theorem selects_add : Selects Gatherer.add (Gathered a) := by
  intro docs g d h
  split
  · rename_i hseen
    have hcontains : g.ids.contains d.id = true := (h.ids d.id).mpr hseen
    rw [Gatherer.add, get_bind, hcontains]
    rfl
  · rename_i hnew
    have hcontains : g.ids.contains d.id = false := by
      rw [← Bool.not_eq_true]
      exact fun hmem => hnew ((h.ids d.id).mp hmem)
    refine ⟨_, add_of_new hcontains, h.analyzer, ?_, ?_, ?_, ?_⟩
    · simp [h.documents]
    · intro id
      rw [Std.HashSet.mem_insert, h.ids]
      simp only [List.map_append, List.map_singleton, List.mem_append, List.mem_singleton,
        beq_iff_eq]
      rw [or_comm, eq_comm]
    · intro w
      have hcount : 0 < occurrences a w d ↔ w ∈ a.words d.indexed ++ a.words d.stored :=
        List.count_pos_iff
      rw [mem_foldl_countWord, h.analyzer, h.words, ← hcount]
      simp only [List.mem_append, List.mem_singleton, or_and_right, exists_or, exists_eq_left]
      exact or_comm
    · intro w id n
      rw [h.analyzer]
      exact h.counts_add hnew w id n

theorem mem_inOrder {α : Type} {l : List (Bytes × α)} {x : Bytes × α} : x ∈ inOrder l ↔ x ∈ l :=
  (List.mergeSort_perm l _).mem_iff

theorem inOrder_eq {α : Type} {l m : List (Bytes × α)} (hl : (l.map (·.1)).Nodup)
    (hm : Ascending m) (h : ∀ x, x ∈ l ↔ x ∈ m) : inOrder l = m :=
  (ascending_mergeSort hl).ext hm fun x => mem_inOrder.trans (h x)

theorem documentRecords_eq (h : Taken a docs b) (hg : Gathered a docs g) :
    documentRecords g.documents = b.documentRecords := by
  have hkeys : (g.documents.map (·.1)).Nodup := by
    rw [hg.documents, List.map_map]
    exact h.nodup
  have hascending : Ascending (b.entries.toList.map fun x => (x.1, x.2.stored)) :=
    List.pairwise_map.mpr (ascending_toList b.entries)
  have hsorted : inOrder g.documents = b.entries.toList.map fun x => (x.1, x.2.stored) := by
    apply inOrder_eq hkeys hascending
    rintro ⟨id, stored⟩
    simp only [hg.documents, List.mem_map, Prod.mk.injEq]
    constructor
    · rintro ⟨d, hd, rfl, rfl⟩
      exact ⟨(d.id, entryOf a d), h.mem_entries.mpr ⟨d, hd, rfl, rfl⟩, rfl, rfl⟩
    · rintro ⟨⟨id, e⟩, he, rfl, rfl⟩
      obtain ⟨d, hd, hid, rfl⟩ := h.mem_entries.mp he
      exact ⟨d, hd, hid, rfl⟩
  rw [documentRecords, hsorted, List.map_map]
  rfl

theorem postings_eq (h : Taken a docs b) (hg : Gathered a docs g) (hw : Lists g words)
    {x : String × List (Bytes × UInt64)} (hx : x ∈ words) :
    ((inOrder x.2).map fun y => (⟨y.1, y.2⟩ : Posting)) =
      Builder.postingsOf x.1 b.entries.toList := by
  obtain ⟨w, listed⟩ := x
  obtain ⟨counts, hfound, hperm⟩ := hw.counts _ hx
  dsimp only at hfound hperm ⊢
  have hmem : w ∈ g.frequencies := Std.HashMap.mem_iff_isSome_getElem?.mpr (by simp [hfound])
  have hlisting : listing b w = Builder.postingsOf w b.entries.toList :=
    if_pos ((h.vocabulary w).mpr ((hg.words w).mp hmem))
  have hkeys : (listed.map (·.1)).Nodup := by
    rw [(hperm.map (·.1)).nodup_iff, Std.HashMap.map_fst_toList_eq_keys]
    exact Std.HashMap.nodup_keys
  have hascending : Ascending ((listing b w).map fun p => (p.id, p.count)) :=
    List.pairwise_map.mpr (List.pairwise_map.mp (ids_listing_ascend b w))
  have hsorted : inOrder listed = (listing b w).map fun p => (p.id, p.count) := by
    apply inOrder_eq hkeys hascending
    rintro ⟨id, n⟩
    have hcount : countOf g.frequencies w id = counts[id]? := by
      rw [countOf, hfound]
      rfl
    rw [hperm.mem_iff, Std.HashMap.mem_toList_iff_getElem?_eq_some, ← hcount, hg.counts]
    simp only [List.mem_map, Prod.mk.injEq]
    constructor
    · rintro ⟨d, hd, hid, hpos, hn⟩
      exact ⟨⟨id, n⟩, h.mem_listing.mpr ⟨d, hd, hid, hpos, hn⟩, rfl, rfl⟩
    · rintro ⟨p, hp, rfl, rfl⟩
      exact h.mem_listing.mp hp
  rw [hsorted, List.map_map, ← hlisting]
  exact List.map_id _

theorem Gatherer.Lists.mem_words (hw : Lists g words) (h : Taken a docs b)
    (hg : Gathered a docs g) (w : String) : w ∈ words.map (·.1) ↔ w ∈ b.vocabulary := by
  rw [hw.keys.mem_iff, Std.HashMap.mem_keys, hg.words, h.vocabulary]

theorem Gatherer.Lists.nodup_words (hw : Lists g words) : (words.map (·.1)).Nodup :=
  hw.keys.nodup_iff.mpr Std.HashMap.nodup_keys

theorem lists_toList (g : Gatherer) :
    Lists g (g.frequencies.toList.map fun x => (x.1, x.2.toList)) := by
  constructor
  · rw [List.map_map]
    exact .of_eq Std.HashMap.map_fst_toList_eq_keys
  · intro x hx
    obtain ⟨⟨w, counts⟩, hmem, rfl⟩ := List.mem_map.mp hx
    exact ⟨counts, Std.HashMap.mem_toList_iff_getElem?_eq_some.mp hmem, .refl _⟩

theorem nodup_vocabulary (b : Builder) : b.vocabulary.toList.Nodup := by
  apply b.vocabulary.distinct_toList.imp
  rintro v w hne rfl
  exact hne Std.ReflCmp.compare_self

theorem length_words (h : Taken a docs b) (hg : Gathered a docs g) (hw : Lists g words) :
    words.length = b.vocabulary.size := by
  have hperm : (words.map (·.1)).Perm b.vocabulary.toList := by
    apply (List.perm_ext_iff_of_nodup hw.nodup_words (nodup_vocabulary b)).mpr
    intro w
    rw [hw.mem_words h hg, Std.ExtTreeSet.mem_toList]
  rw [← Std.ExtTreeSet.length_toList, ← hperm.length_eq, List.length_map]

def stored (b : Builder) : List (Bytes × Bytes) :=
  b.vocabulary.toList.map fun w =>
    (Bytes.ofString w, Posting.encode (Builder.postingsOf w b.entries.toList))

theorem ascending_stored (b : Builder) : Ascending (stored b) := by
  apply List.pairwise_map.mpr
  apply b.vocabulary.ordered_toList.imp
  intro v w hlt
  exact ofString_lt hlt

theorem wordRecords_eq (h : Taken a docs b) (hg : Gathered a docs g) (hw : Lists g words) :
    wordRecords words = b.wordRecords := by
  have hkeys : ((words.map fun x => (Bytes.ofString x.1, x.2)).map (·.1)).Nodup := by
    have hinj := hw.nodup_words.map fun _ _ => Bytes.ofString_injective
    rwa [List.map_map] at hinj ⊢
  have hascending : Ascending ((inOrder (words.map fun x => (Bytes.ofString x.1, x.2))).map
      fun x => (x.1, Posting.encode ((inOrder x.2).map fun y => ⟨y.1, y.2⟩))) :=
    List.pairwise_map.mpr (ascending_mergeSort hkeys)
  have hsame : (inOrder (words.map fun x => (Bytes.ofString x.1, x.2))).map
      (fun x => (x.1, Posting.encode ((inOrder x.2).map fun y => ⟨y.1, y.2⟩))) = stored b := by
    apply hascending.ext (ascending_stored b)
    rintro ⟨key, value⟩
    simp only [stored, List.mem_map, mem_inOrder, Prod.mk.injEq, Std.ExtTreeSet.mem_toList]
    constructor
    · rintro ⟨y, ⟨x, hx, rfl⟩, rfl, rfl⟩
      refine ⟨x.1, (hw.mem_words h hg x.1).mp (List.mem_map.mpr ⟨x, hx, rfl⟩), rfl, ?_⟩
      rw [← postings_eq h hg hw hx]
    · rintro ⟨w, hmem, rfl, rfl⟩
      obtain ⟨x, hx, rfl⟩ := List.mem_map.mp ((hw.mem_words h hg w).mpr hmem)
      refine ⟨_, ⟨x, hx, rfl⟩, rfl, ?_⟩
      rw [← postings_eq h hg hw hx]
  have hrecords := congrArg (List.map fun x : Bytes × Bytes => (⟨x.1, x.2⟩ : Record)) hsame
  rw [stored, List.map_map, List.map_map] at hrecords
  exact hrecords

theorem finish_gathered (h : Taken a docs b) (hg : Gathered a docs g) (hw : Lists g words) :
    g.finish words = b.finish := by
  have hlength : g.documents.length = b.entries.size := by
    have hrecords := congrArg List.length (documentRecords_eq h hg)
    rwa [documentRecords, List.length_map, inOrder, List.length_mergeSort,
      Builder.documentRecords, List.length_map, Std.ExtTreeMap.length_toList] at hrecords
  have hanalyzer : g.analyzer = b.analyzer := hg.analyzer.trans h.analyzer.symm
  rw [Gatherer.finish, Builder.finish, documentRecords_eq h hg, wordRecords_eq h hg hw, hlength,
    length_words h hg hw, hanalyzer]

/-- If of two series of calls the same documents are taken, in whatever order and whatever other
calls are refused, then both end in the same file and summary. Nor does it matter whether words are
kept in order or by hash, in which case all orders to go through them end in this file too. -/
theorem finish_of_accepted (c : AnalyzerConfig) (calls calls' : List Source)
    (h : ∀ d, d ∈ accepted offer calls (Builder.ofConfig c) ↔
      d ∈ accepted offer calls' (Builder.ofConfig c)) :
    (offered offer calls (Builder.ofConfig c)).finish =
        (offered offer calls' (Builder.ofConfig c)).finish ∧
      accepted Gatherer.add calls (Gatherer.ofConfig c) =
        accepted offer calls (Builder.ofConfig c) ∧
      ∀ words, Lists (offered Gatherer.add calls (Gatherer.ofConfig c)) words →
        (offered Gatherer.add calls (Gatherer.ofConfig c)).finish words =
          (offered offer calls' (Builder.ofConfig c)).finish := by
  obtain ⟨hnew, htaken⟩ := selects_offer.run (taken_ofConfig c) calls
  obtain ⟨-, htaken'⟩ := selects_offer.run (taken_ofConfig c) calls'
  obtain ⟨hnewGathered, hgathered⟩ := selects_add.run (gathered_ofConfig c) calls
  have hsame : offered offer calls (Builder.ofConfig c) =
      offered offer calls' (Builder.ofConfig c) := Taken.ext htaken htaken' h
  have haccepted := hnewGathered.trans hnew.symm
  refine ⟨by rw [hsame], haccepted, ?_⟩
  intro words hwords
  rw [haccepted] at hgathered
  rw [← hsame]
  exact finish_gathered htaken hgathered hwords

theorem accepted_offer (c : AnalyzerConfig) (calls : List Source) :
    accepted offer calls (Builder.ofConfig c) = newOnes [] calls :=
  (selects_offer.run (taken_ofConfig c) calls).1

def mixedCalls : List Source := [([1], "blue, red", ""), ([1], "green", ""), ([0], "red", "Red")]

def orderedCalls : List Source := [([0], "red", "Red"), ([1], "blue, red", "")]

theorem finish_of_accepted_reversed :
    accepted offer mixedCalls (Builder.ofConfig {}) = orderedCalls.reverse ∧
      (offered offer mixedCalls (Builder.ofConfig {})).finish =
        (offered offer orderedCalls (Builder.ofConfig {})).finish ∧
      ∃ words, Lists (offered Gatherer.add mixedCalls (Gatherer.ofConfig {})) words ∧
        (offered Gatherer.add mixedCalls (Gatherer.ofConfig {})).finish words =
          (offered offer orderedCalls (Builder.ofConfig {})).finish := by
  have hmixed : accepted offer mixedCalls (Builder.ofConfig {}) = orderedCalls.reverse := by
    rw [accepted_offer]
    decide
  have hordered : accepted offer orderedCalls (Builder.ofConfig {}) = orderedCalls := by
    rw [accepted_offer]
    decide
  obtain ⟨hfile, -, hwords⟩ := finish_of_accepted {} mixedCalls orderedCalls (by
    intro d
    rw [hmixed, hordered, List.mem_reverse])
  have hlists := lists_toList (offered Gatherer.add mixedCalls (Gatherer.ofConfig {}))
  exact ⟨hmixed, hfile, _, hlists, hwords _ hlists⟩

end Concordance.Proofs.BuildOrder
