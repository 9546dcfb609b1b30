import Concordance.Proofs.Ranking

namespace Concordance.Proofs.IndexRoundTrip

open Analysis (Analyzer AnalyzerConfig)
open BlockStore (Record headerSize)
open Index Outcomes Cursors StoreImage IndexImage IndexReading WordCounts Ranking

variable {a : Analyzer} {docs : List Source} {b : Builder}

def Countable (a : Analyzer) (docs : List Source) : Prop :=
  ∀ d ∈ docs, (a.words d.indexed ++ a.words d.stored).length < UInt64.size

theorem sum_occurrences_le {ws : List String} (hws : ws.Nodup) (d : Source) :
    (ws.map (occurrences a · d)).sum ≤ (a.words d.indexed ++ a.words d.stored).length := by
  rw [← List.sum_toFinset _ hws]
  exact sum_count_le _ _

theorem Countable.occurrences_lt (hc : Countable a docs) {d : Source} (hd : d ∈ docs) (w : String) :
    occurrences a w d < UInt64.size :=
  Nat.lt_of_le_of_lt List.count_le_length (hc d hd)

theorem Countable.relevance_lt (hc : Countable a docs) {d : Source} (hd : d ∈ docs)
    (query : String) : relevance a query d < UInt64.size :=
  Nat.lt_of_le_of_lt (sum_count_le _ _) (hc d hd)

theorem occurrenceList_ascending (hnd : (docs.map Source.id).Nodup) (w : String) :
    Ascending (occurrenceList a docs w) := by
  apply ascending_mergeSort
  have hsub := (List.filter_sublist (p := fun x : Bytes × Nat => decide (0 < x.2))
    (l := docs.map fun d => (d.id, occurrences a w d))).map (·.1)
  rw [List.map_map] at hsub
  exact hnd.sublist hsub

theorem listing_eq (h : Taken a docs b) (hc : Countable a docs) (w : String) :
    (listing b w).map (fun p => (p.id, p.count.toNat)) = occurrenceList a docs w := by
  have hleft : Ascending ((listing b w).map fun p => (p.id, p.count.toNat)) := by
    rw [Ascending, List.pairwise_map]
    exact List.pairwise_map.mp (ids_listing_ascend b w)
  apply hleft.ext (occurrenceList_ascending h.nodup w)
  rintro ⟨id, n⟩
  rw [occurrenceList, (List.mergeSort_perm _ _).mem_iff]
  simp only [List.mem_map, List.mem_filter, decide_eq_true_eq, Prod.mk.injEq]
  constructor
  · rintro ⟨p, hp, rfl, rfl⟩
    obtain ⟨d, hd, hid, hpos, hcount⟩ := h.mem_listing.mp hp
    have hn : p.count.toNat = occurrences a w d := by
      rw [hcount, UInt64.toNat_ofNat_of_lt' (hc.occurrences_lt hd w)]
    exact ⟨⟨d, hd, hid, hn.symm⟩, hn ▸ hpos⟩
  · rintro ⟨⟨d, hd, rfl, rfl⟩, hpos⟩
    refine ⟨⟨d.id, UInt64.ofNat (occurrences a w d)⟩,
      h.mem_listing.mpr ⟨d, hd, rfl, hpos, rfl⟩, rfl, ?_⟩
    exact UInt64.toNat_ofNat_of_lt' (hc.occurrences_lt hd w)

theorem saturatingAdd_ofNat {m n : Nat} (h : m + n < UInt64.size) :
    saturatingAdd (UInt64.ofNat m) (UInt64.ofNat n) = UInt64.ofNat (m + n) := by
  rw [saturatingAdd, UInt64.toNat_ofNat_of_lt' (by omega), UInt64.toNat_ofNat_of_lt' (by omega),
    Nat.min_eq_left (by omega)]

/-- The postings of different documents change the score of each of them once. -/
theorem getElem?_foldl_add {ps : List Posting} (hnd : (ps.map (·.id)).Nodup) (scores : Scores)
    (id : Bytes) : (ps.foldl (fun s p => s.add p) scores)[id]? =
      match ps.find? (·.id = id) with
      | none => scores[id]?
      | some p => some (saturatingAdd (scores[id]?.getD 0) p.count) := by
  induction ps generalizing scores with
  | nil => rfl
  | cons p ps ih =>
      rw [List.map_cons, List.nodup_cons] at hnd
      rw [List.foldl_cons, ih hnd.2, Scores.getElem?_add]
      by_cases hid : p.id = id
      · subst hid
        have hnone : ps.find? (·.id = p.id) = none := by
          rw [List.find?_eq_none]
          intro q hq heq
          exact hnd.1 (List.mem_map.mpr ⟨q, hq, by simpa using heq⟩)
        rw [hnone, if_pos rfl, List.find?_cons_of_pos (by simp)]
      · rw [if_neg hid, List.find?_cons_of_neg (by simpa using hid)]

def total (a : Analyzer) (docs : List Source) (ws : List String) (id : Bytes) : Nat :=
  match docs.find? (·.id = id) with
  | none => 0
  | some d => (ws.map (occurrences a · d)).sum

def Totals (a : Analyzer) (docs : List Source) (ws : List String) (scores : Scores) : Prop :=
  ∀ id : Bytes, scores[id]? =
    if total a docs ws id = 0 then none else some (UInt64.ofNat (total a docs ws id))

theorem totals_empty : Totals a docs [] ∅ := by
  intro id
  have hzero : total a docs [] id = 0 := by
    rw [total]
    split <;> rfl
  rw [if_pos hzero, Std.ExtTreeMap.getElem?_empty]

theorem total_append (ws : List String) (w : String) {d : Source} {id : Bytes}
    (hd : docs.find? (·.id = id) = some d) :
    total a docs (ws ++ [w]) id = total a docs ws id + occurrences a w d := by
  simp only [total, hd, List.map_append, List.map_cons, List.map_nil, List.sum_append,
    List.sum_cons, List.sum_nil, Nat.add_zero]

theorem Totals.getD {ws : List String} {scores : Scores} (hs : Totals a docs ws scores)
    (id : Bytes) : scores[id]?.getD 0 = UInt64.ofNat (total a docs ws id) := by
  rw [hs id]
  split
  · rename_i hzero
    rw [hzero]
    rfl
  · rfl

theorem find?_listing (h : Taken a docs b) (w : String) (id : Bytes) :
    (listing b w).find? (·.id = id) = (docs.find? (·.id = id)).bind fun d =>
      if occurrences a w d = 0 then none else some ⟨id, UInt64.ofNat (occurrences a w d)⟩ := by
  ext p
  rw [find?_eq_some_iff (ids_listing_nodup b w), h.mem_listing, Option.bind_eq_some_iff]
  constructor
  · rintro ⟨⟨d, hd, hid, hpos, hcount⟩, rfl⟩
    refine ⟨d, (find?_eq_some_iff h.nodup).mpr ⟨hd, hid⟩, ?_⟩
    rw [if_neg (Nat.ne_of_gt hpos), ← hcount]
  · rintro ⟨d, hd, hp⟩
    obtain ⟨hmem, hid⟩ := (find?_eq_some_iff h.nodup).mp hd
    split at hp
    · cases hp
    · rename_i hocc
      cases hp
      exact ⟨⟨d, hmem, hid, Nat.pos_of_ne_zero hocc, rfl⟩, rfl⟩

theorem Totals.step (h : Taken a docs b) (hc : Countable a docs) {ws : List String} {w : String}
    (hnd : (ws ++ [w]).Nodup) {scores : Scores} (hs : Totals a docs ws scores) :
    Totals a docs (ws ++ [w]) ((listing b w).foldl (fun s p => s.add p) scores) := by
  intro id
  rw [getElem?_foldl_add (ids_listing_nodup b w), find?_listing h]
  cases hd : docs.find? (·.id = id) with
  | none =>
      have hzero (ws : List String) : total a docs ws id = 0 := by simp only [total, hd]
      rw [if_pos (hzero _), Option.bind_none]
      dsimp only
      rw [hs id, if_pos (hzero _)]
  | some d =>
      obtain ⟨hmem, hid⟩ := (find?_eq_some_iff h.nodup).mp hd
      rw [total_append ws w hd, Option.bind_some]
      by_cases hocc : occurrences a w d = 0
      · rw [if_pos hocc, hocc, Nat.add_zero]
        exact hs id
      · have hlt : total a docs ws id + occurrences a w d < UInt64.size := by
          rw [← total_append ws w hd, total, hd]
          exact Nat.lt_of_le_of_lt (sum_occurrences_le hnd d) (hc d hmem)
        rw [if_neg hocc, if_neg (by omega)]
        dsimp only
        rw [hs.getD, saturatingAdd_ofNat hlt]

theorem Totals.tallied (h : Taken a docs b) (hc : Countable a docs) {done ws : List String}
    (hnd : (done ++ ws).Nodup) {scores : Scores} (hs : Totals a docs done scores) :
    Totals a docs (done ++ ws) (tallied b scores ws) := by
  induction ws generalizing done scores with
  | nil =>
      rw [List.append_nil]
      exact hs
  | cons w ws ih =>
      have hsplit : done ++ w :: ws = (done ++ [w]) ++ ws := by simp
      rw [hsplit] at hnd ⊢
      exact ih hnd (hs.step h hc (hnd.sublist (List.sublist_append_left _ _)))

theorem total_eraseDups (h : Taken a docs b) (query : String) {d : Source} (hd : d ∈ docs) :
    total a docs (a.words query).eraseDups d.id = relevance a query d := by
  rw [total, (find?_eq_some_iff h.nodup).mpr ⟨hd, rfl⟩]
  exact sum_eraseDups _ _

theorem mem_scores (h : Taken a docs b) (hc : Countable a docs) (query : String) {id : Bytes}
    {n : UInt64} :
    (id, n) ∈ (tallied b ∅ (a.words query).eraseDups).toList ↔ ∃ d ∈ docs, d.id = id ∧
      0 < relevance a query d ∧ n = UInt64.ofNat (relevance a query d) := by
  have htotals : Totals a docs (a.words query).eraseDups
      (tallied b ∅ (a.words query).eraseDups) := by
    have hnd : ([] ++ (a.words query).eraseDups).Nodup := nodup_eraseDups _
    exact totals_empty.tallied h hc hnd
  rw [Std.ExtTreeMap.mem_toList_iff_getElem?_eq_some, htotals id]
  constructor
  · intro hn
    cases hd : docs.find? (·.id = id) with
    | none => simp [total, hd] at hn
    | some d =>
        obtain ⟨hmem, rfl⟩ := (find?_eq_some_iff h.nodup).mp hd
        rw [total_eraseDups h query hmem] at hn
        by_cases hzero : relevance a query d = 0
        · simp [hzero] at hn
        · rw [if_neg hzero] at hn
          exact ⟨d, hmem, rfl, Nat.pos_of_ne_zero hzero, (Option.some.inj hn).symm⟩
  · rintro ⟨d, hd, rfl, hpos, rfl⟩
    rw [total_eraseDups h query hd, if_neg (Nat.ne_of_gt hpos)]

def rowOf (h : Hit) : Row := ⟨h.id, h.stored, h.score.toNat⟩

theorem ranksBefore_eq (x y : Bytes × UInt64) (s t : Bytes) :
    ranksBefore x y = Row.precedes ⟨x.1, s, x.2.toNat⟩ ⟨y.1, t, y.2.toNat⟩ := by
  have heq : (x.2 == y.2) = (x.2.toNat == y.2.toNat) := by
    rw [Bool.eq_iff_iff, beq_iff_eq, beq_iff_eq, UInt64.toNat_inj]
  simp only [ranksBefore, Row.precedes, heq, UInt64.lt_iff_toNat_lt]

theorem pairwise_ranked (s : Scores) :
    s.ranked.Pairwise fun x y => ranksBefore x y = true := by
  apply List.pairwise_mergeSort
  · intro x y z hxy hyz
    rw [ranksBefore_eq _ _ [] []] at hxy hyz ⊢
    exact precedes_trans _ _ _ hxy hyz
  · intro x y
    rw [ranksBefore_eq _ _ [] [], ranksBefore_eq _ _ [] []]
    exact precedes_total _ _

theorem mem_rows (h : Taken a docs b) (hc : Countable a docs) (query : String) {r : Row} :
    r ∈ (tallied b ∅ (a.words query).eraseDups).ranked.map (fun x => rowOf (hitOf b x)) ↔
      ∃ d ∈ docs, 0 < relevance a query d ∧
        r = ⟨d.id, Bytes.ofString d.stored, relevance a query d⟩ := by
  have hrow {d : Source} (hd : d ∈ docs) :
      rowOf (hitOf b (d.id, UInt64.ofNat (relevance a query d))) =
        ⟨d.id, Bytes.ofString d.stored, relevance a query d⟩ := by
    have hstored : b.entries[d.id]? = some (entryOf a d) := by
      rw [h.entries, (find?_eq_some_iff h.nodup).mpr ⟨hd, rfl⟩, Option.map_some]
    rw [rowOf, hitOf, hstored]
    simp only [UInt64.toNat_ofNat_of_lt' (hc.relevance_lt hd query), Option.map_some,
      Option.getD_some, entryOf]
  simp only [List.mem_map, Scores.ranked, (List.mergeSort_perm _ _).mem_iff]
  constructor
  · rintro ⟨⟨id, n⟩, hx, rfl⟩
    obtain ⟨d, hd, rfl, hpos, rfl⟩ := (mem_scores h hc query).mp hx
    exact ⟨d, hd, hpos, hrow hd⟩
  · rintro ⟨d, hd, hpos, rfl⟩
    exact ⟨_, (mem_scores h hc query).mpr ⟨d, hd, rfl, hpos, rfl⟩, hrow hd⟩

def scored (a : Analyzer) (docs : List Source) (query : String) : List Row :=
  (docs.map fun d => (⟨d.id, Bytes.ofString d.stored, relevance a query d⟩ : Row)).filter
    (0 < ·.score)

theorem mem_scored {query : String} {r : Row} : r ∈ scored a docs query ↔
    ∃ d ∈ docs, 0 < relevance a query d ∧
      r = ⟨d.id, Bytes.ofString d.stored, relevance a query d⟩ := by
  simp only [scored, List.mem_filter, List.mem_map, decide_eq_true_eq]
  constructor
  · rintro ⟨⟨d, hd, rfl⟩, hpos⟩
    exact ⟨d, hd, hpos, rfl⟩
  · rintro ⟨d, hd, hpos, rfl⟩
    exact ⟨⟨d, hd, rfl⟩, hpos⟩

theorem nodup_scored (h : (docs.map Source.id).Nodup) (query : String) :
    (scored a docs query).Nodup := by
  have hsub : (scored a docs query).Sublist
      (docs.map fun d => ⟨d.id, Bytes.ofString d.stored, relevance a query d⟩) :=
    List.filter_sublist
  have hids := hsub.map Row.id
  rw [List.map_map] at hids
  exact List.Nodup.of_map _ (h.sublist hids)

theorem nodup_ids_ranked (s : Scores) : (s.ranked.map (·.1)).Nodup :=
  ((List.mergeSort_perm s.toList ranksBefore).map (·.1)).nodup_iff.mpr
    (ascending_toList s).nodup_keys

theorem nodup_rows (b : Builder) (s : Scores) :
    (s.ranked.map fun x => rowOf (hitOf b x)).Nodup := by
  have hids := nodup_ids_ranked s
  apply List.Nodup.of_map Row.id
  rwa [List.map_map]

theorem answer_eq (h : Taken a docs b) (hc : Countable a docs) (query : String) (limit : Nat) :
    (answer b query limit).map rowOf = ranking a docs query limit := by
  have hrows : (tallied b ∅ (a.words query).eraseDups).ranked.map (fun x => rowOf (hitOf b x)) =
      (scored a docs query).mergeSort Row.precedes := by
    have hperm : ((tallied b ∅ (a.words query).eraseDups).ranked.map
        fun x => rowOf (hitOf b x)).Perm ((scored a docs query).mergeSort Row.precedes) := by
      refine List.Perm.trans ?_ (List.mergeSort_perm _ _).symm
      apply (List.perm_ext_iff_of_nodup (nodup_rows b _) (nodup_scored h.nodup query)).mpr
      intro r
      rw [mem_rows h hc query, mem_scored]
    refine hperm.eq_of_pairwise ?_ (List.pairwise_map.mpr ?_)
      (List.pairwise_mergeSort precedes_trans precedes_total _)
    · intro x y hx hy hxy hyx
      obtain ⟨d, hd, -, rfl⟩ := (mem_rows h hc query).mp hx
      obtain ⟨e, he, -, rfl⟩ := mem_scored.mp ((List.mergeSort_perm _ _).mem_iff.mp hy)
      have hid : d.id = e.id := (precedes_antisymm hxy hyx).1
      have hsame := (find?_eq_some_iff h.nodup).mpr ⟨hd, hid⟩
      rw [(find?_eq_some_iff h.nodup).mpr ⟨he, rfl⟩] at hsame
      cases hsame
      rfl
    · apply (pairwise_ranked _).imp
      intro x y hxy
      rwa [ranksBefore_eq x y (hitOf b x).stored (hitOf b y).stored] at hxy
  rw [answer, h.analyzer, ranking, List.map_map, List.map_take]
  exact congrArg (List.take limit) hrows

theorem document_eq (h : Taken a docs b) (id : Bytes) :
    b.entries[id]?.map (·.stored) = storedFor docs id := by
  rw [h.entries, storedFor, Option.map_map]
  rfl

/-- A text in memory has fewer characters than this. -/
def textLimit : Nat := 2 ^ 63

theorem record_mem (h : Taken a docs b) {d : Source} (hd : d ∈ docs) :
    (⟨d.id, Bytes.ofString d.stored⟩ : Record) ∈ b.documentRecords :=
  List.mem_map.mpr ⟨(d.id, entryOf a d), h.mem_entries.mpr ⟨d, hd, rfl, rfl⟩, rfl⟩

theorem countable_of_small (h : Taken a docs b) (htexts : ∀ d ∈ docs, d.indexed.length < textLimit)
    (hsmall : size b.documentRecords < UInt32.size) : Countable a docs := by
  intro d hd
  have hstored := (length_record_le (record_mem h hd)).trans (dataSize_le_size _)
  have hindexed := htexts d hd
  have hwords := length_words_le a d.indexed
  have hwords' := length_words_le a d.stored
  have hchars := length_le_ofString d.stored
  have hmax : textLimit + UInt32.size + 4 ≤ UInt64.size := by decide
  rw [List.length_append]
  dsimp only at hstored
  omega

inductive Call where
  | document (id : Bytes)
  | postings (word : String)
  | search (query : String) (limit : Nat)

def Call.after (s : Searcher) : Call → Searcher
  | .document id => stateOf (Searcher.document id s)
  | .postings word => stateOf (Searcher.postings word s)
  | .search query limit => stateOf (Searcher.search query limit s)

theorem serves_after {p : Tape} {s : Searcher} (h : Serves p b s) (call : Call) :
    Serves p b (call.after s) := by
  cases call with
  | document id => exact (document_spec h id).leaves
  | postings word => exact (postings_spec h word).leaves
  | search query limit => exact (search_spec h query limit).leaves

theorem serves_afterAll {p : Tape} {s : Searcher} (h : Serves p b s) (calls : List Call) :
    Serves p b (calls.foldl Call.after s) := by
  induction calls generalizing s with
  | nil => exact h
  | cons call calls ih => exact ih (serves_after h call)

/-- Documents with different ids are taken in, and if their file is shorter than 4 GiB, its
searcher gives the reference answers, whatever it was asked before. -/
theorem index_roundTrip (c : AnalyzerConfig) (docs : List Source)
    (hids : (docs.map Source.id).Nodup) (htexts : ∀ d ∈ docs, d.indexed.length < textLimit) :
    ∃ b, (Builder.ofConfig c).addAll docs = .ok b ∧ (fileSize b < UInt32.size →
      ∃ chunks summary s, b.finish = .ok (chunks, summary) ∧ chunks.flatten.length = fileSize b ∧
        Searcher.ofBytes chunks.flatten c = .ok s ∧
        ∀ calls : List Call, ∀ t, t = calls.foldl Call.after s →
          (∀ query limit, ∃ hits u, Searcher.search query limit t = .ok hits u ∧
            hits.map rowOf = ranking (Analyzer.ofConfig c) docs query limit) ∧
          (∀ id, ∃ u, Searcher.document id t = .ok (storedFor docs id) u) ∧
          ∀ word, ∃ ps u, Searcher.postings word t = .ok ps u ∧
            ps.map (fun p => (p.id, p.count.toNat)) =
              occurrenceList (Analyzer.ofConfig c) docs word) := by
  obtain ⟨b, hadd, htaken⟩ := (taken_ofConfig c).addAll hids
  refine ⟨b, hadd, ?_⟩
  intro hsmall
  have hsizes : fileSize b = Header.size + size b.documentRecords + size b.wordRecords := rfl
  have hd : size b.documentRecords < UInt32.size := by omega
  have hw : size b.wordRecords < UInt32.size := by omega
  have hcount := countable_of_small htaken htexts hd
  obtain ⟨s, hopen, hserves⟩ := IndexReading.ofInput_spec (over_ofBytes (parts b).flatten)
    (Tape.toBytes_ofBytes _) hd hw htaken.analyzer
  refine ⟨_, _, s, finish_of_lt b hd hw, length_parts b, hopen, ?_⟩
  rintro calls t rfl
  have ht := serves_afterAll hserves calls
  refine ⟨?_, ?_, ?_⟩
  · intro query limit
    obtain ⟨u, hu, -⟩ := search_spec ht query limit
    exact ⟨_, u, hu, answer_eq htaken hcount query limit⟩
  · intro id
    obtain ⟨u, hu, -⟩ := document_spec ht id
    rw [document_eq htaken] at hu
    exact ⟨u, hu⟩
  · intro word
    obtain ⟨u, hu, -⟩ := postings_spec ht word
    exact ⟨_, u, hu, listing_eq htaken hcount word⟩

theorem index_roundTrip_two :
    ([([47, 98], "Fox", ""), ([47, 97], "", "dog")].map Source.id).Nodup ∧
      ∃ b, (Builder.ofConfig {}).addAll [([47, 98], "Fox", ""), ([47, 97], "", "dog")] = .ok b ∧
        fileSize b < UInt32.size ∧ ∃ chunks summary s, b.finish = .ok (chunks, summary) ∧
          Searcher.ofBytes chunks.flatten {} = .ok s ∧ ∃ hits u,
            Searcher.search "FOX cat" 5 s = .ok hits u ∧ hits.map rowOf = [⟨[47, 98], [], 1⟩] := by
  have hsize : (match (Builder.ofConfig {}).addAll
      [([47, 98], "Fox", ""), ([47, 97], "", "dog")] with
      | .ok b => decide (fileSize b < UInt32.size)
      | .error _ => false) = true := by decide +kernel
  have hranking : ranking (Analyzer.ofConfig {}) [([47, 98], "Fox", ""), ([47, 97], "", "dog")]
      "FOX cat" 5 = [⟨[47, 98], [], 1⟩] := by decide +kernel
  obtain ⟨b, hadd, hfile⟩ := index_roundTrip {} [([47, 98], "Fox", ""), ([47, 97], "", "dog")]
    (by decide) (by decide)
  rw [hadd] at hsize
  have hsmall : fileSize b < UInt32.size := by simpa using hsize
  obtain ⟨chunks, summary, s, hfinish, -, hopen, hcalls⟩ := hfile hsmall
  obtain ⟨hits, u, hsearch, hrows⟩ := (hcalls [] s rfl).1 "FOX cat" 5
  exact ⟨by decide, b, hadd, hsmall, chunks, summary, s, hfinish, hopen, hits, u, hsearch,
    hrows.trans hranking⟩

end Concordance.Proofs.IndexRoundTrip
