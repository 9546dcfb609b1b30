import Concordance.Proofs.BuildOrder
import Concordance.Proofs.IndexRoundTrip
import Concordance.Proofs.Persistence

namespace Concordance.Proofs.FieldSearch

open Analysis (Analyzer AnalyzerConfig)
open Index Catalog Outcomes IndexImage IndexReading Reopening WordCounts Ranking IndexRoundTrip
open BuildOrder Generations Persistence

variable {c : AnalyzerConfig} {a : Analyzer} {docs : List Source} {ds : List Document} {f : Field}
  {x : Catalog × Storage} {query : String} {limit : Nat}

theorem taken_of_built {b : Builder} (h : Built c ds f b) :
    Taken (Analyzer.ofConfig c) (sources f ds) b := by
  have htaken := Taken.of_addAll (taken_ofConfig c) h.added
  rwa [List.nil_append] at htaken

theorem built_of_holds (h : Holds c ds x) (f : Field) : ∃ b, Built c ds f b := by
  obtain ⟨r, -, hreads⟩ := h
  obtain ⟨b, p, hbuilt, -⟩ := hreads f
  exact ⟨b, hbuilt⟩

theorem searchField_ranking (h : Holds c ds x)
    (hcount : Countable (Analyzer.ofConfig c) (sources f ds)) (query : String) (limit : Nat) :
    ∃ hits y, Serving.searchField f query limit x = .ok hits y ∧
      hits.map rowOf = ranking (Analyzer.ofConfig c) (sources f ds) query limit := by
  obtain ⟨b, hbuilt⟩ := built_of_holds h f
  obtain ⟨cat, s⟩ := x
  obtain ⟨r, hr, hreads⟩ := h
  obtain ⟨hits, r', hstep, hfresh, -⟩ := searchField_of_reads hr hreads f query limit
  rw [freshHits_of_built hbuilt] at hfresh
  obtain rfl := Except.ok.inj hfresh
  exact ⟨_, _, hstep, answer_eq (taken_of_built hbuilt) hcount query limit⟩

theorem mem_ranking (hlimit : docs.length ≤ limit) {r : Row} :
    r ∈ ranking a docs query limit ↔ ∃ d ∈ docs, 0 < relevance a query d ∧
      r = ⟨d.id, Bytes.ofString d.stored, relevance a query d⟩ := by
  have hlength : ((scored a docs query).mergeSort Row.precedes).length ≤ limit := by
    rw [List.length_mergeSort, scored]
    refine (List.length_filter_le _ _).trans ?_
    rwa [List.length_map]
  have hall : ranking a docs query limit = (scored a docs query).mergeSort Row.precedes :=
    List.take_of_length_le hlength
  rw [hall, (List.mergeSort_perm _ _).mem_iff, mem_scored]

theorem length_le_relevance {d : Source}
    (h : ∀ w ∈ a.words query, w ∈ a.words d.indexed ++ a.words d.stored) :
    (a.words query).eraseDups.length ≤ relevance a query d := by
  have hpos : ∀ n ∈ (a.words query).eraseDups.map (occurrences a · d), 1 ≤ n := by
    intro n hn
    obtain ⟨w, hw, rfl⟩ := List.mem_map.mp hn
    exact List.count_pos_iff.mpr (h w (List.mem_eraseDups.mp hw))
  have hsum := List.length_le_sum_of_one_le _ hpos
  rwa [List.length_map, sum_eraseDups] at hsum

theorem searchField_finds (h : Holds c ds x)
    (hcount : Countable (Analyzer.ofConfig c) (sources f ds)) {d : Document} (hd : d ∈ ds)
    (hlimit : ds.length ≤ limit)
    (hne : (Analyzer.ofConfig c).words query ≠ [])
    (hwords : ∀ w ∈ (Analyzer.ofConfig c).words query,
      w ∈ (Analyzer.ofConfig c).words (f.project d)) :
    ∃ hits y, Serving.searchField f query limit x = .ok hits y ∧ ∃ hit ∈ hits,
      hit.id = Bytes.ofString d.id ∧ hit.stored = Bytes.ofString d.stored ∧
        ((Analyzer.ofConfig c).words query).eraseDups.length ≤ hit.score.toNat := by
  obtain ⟨hits, y, hsearch, hrows⟩ := searchField_ranking h hcount query limit
  have hsource : (Bytes.ofString d.id, f.project d, d.stored) ∈ sources f ds :=
    List.mem_map.mpr ⟨d, hd, rfl⟩
  have hscore : ((Analyzer.ofConfig c).words query).eraseDups.length ≤
      relevance (Analyzer.ofConfig c) query (Bytes.ofString d.id, f.project d, d.stored) :=
    length_le_relevance fun w hw => List.mem_append_left _ (hwords w hw)
  have hpos : 0 < ((Analyzer.ofConfig c).words query).eraseDups.length := by
    obtain ⟨w, hw⟩ := List.exists_mem_of_ne_nil _ hne
    exact List.length_pos_of_mem (List.mem_eraseDups.mpr hw)
  have hroom : (sources f ds).length ≤ limit := by rwa [sources, List.length_map]
  have hrow := (mem_ranking hroom).mpr ⟨_, hsource, Nat.lt_of_lt_of_le hpos hscore, rfl⟩
  rw [← hrows] at hrow
  obtain ⟨hit, hhit, heq⟩ := List.mem_map.mp hrow
  simp only [rowOf, Row.mk.injEq, Source.id, Source.stored] at heq
  obtain ⟨hid, hstored, hscored⟩ := heq
  exact ⟨hits, y, hsearch, hit, hhit, hid, hstored, hscored ▸ hscore⟩

section

variable {b : Builder} {id : Bytes}

theorem getElem?_foldl_add_ne_none (ps : List Posting) (scores : Scores) :
    (ps.foldl (fun s q => s.add q) scores)[id]? ≠ none ↔
      scores[id]? ≠ none ∨ ∃ q ∈ ps, q.id = id := by
  induction ps generalizing scores with
  | nil => simp
  | cons q ps ih =>
      rw [List.foldl_cons, ih, Scores.getElem?_add]
      by_cases hq : q.id = id
      · simp [hq]
      · simp [hq]

theorem getElem?_tallied_ne_none (ws : List String) (scores : Scores) :
    (tallied b scores ws)[id]? ≠ none ↔
      scores[id]? ≠ none ∨ ∃ w ∈ ws, ∃ q ∈ listing b w, q.id = id := by
  induction ws generalizing scores with
  | nil => simp [tallied]
  | cons w ws ih =>
      have hstep : tallied b scores (w :: ws) =
          tallied b ((listing b w).foldl (fun s q => s.add q) scores) ws := rfl
      rw [hstep, ih, getElem?_foldl_add_ne_none, List.exists_mem_cons_iff, or_assoc]

theorem mem_ids_ranked (h : Taken a docs b) (query : String) :
    id ∈ (tallied b ∅ (a.words query).eraseDups).ranked.map (·.1) ↔
      ∃ d ∈ docs, d.id = id ∧ ∃ w ∈ a.words query, w ∈ a.words d.indexed ++ a.words d.stored := by
  have hkey : ∀ scores : Scores, id ∈ scores.ranked.map (·.1) ↔ scores[id]? ≠ none := by
    intro scores
    rw [Scores.ranked, ((List.mergeSort_perm scores.toList ranksBefore).map (·.1)).mem_iff,
      List.mem_map, Option.ne_none_iff_exists']
    constructor
    · rintro ⟨⟨id, n⟩, hmem, rfl⟩
      exact ⟨n, Std.ExtTreeMap.mem_toList_iff_getElem?_eq_some.mp hmem⟩
    · rintro ⟨n, hn⟩
      exact ⟨(id, n), Std.ExtTreeMap.mem_toList_iff_getElem?_eq_some.mpr hn, rfl⟩
  have hoccurs : ∀ w d, 0 < occurrences a w d ↔ w ∈ a.words d.indexed ++ a.words d.stored :=
    fun w d => List.count_pos_iff
  rw [hkey, getElem?_tallied_ne_none]
  constructor
  · rintro (hempty | ⟨w, hw, q, hq, rfl⟩)
    · simp at hempty
    · obtain ⟨d, hd, hid, hpos, -⟩ := h.mem_listing.mp hq
      have hmem := (hoccurs w d).mp hpos
      exact ⟨d, hd, hid, w, List.mem_eraseDups.mp hw, hmem⟩
  · rintro ⟨d, hd, rfl, w, hw, hmem⟩
    have hpos := (hoccurs w d).mpr hmem
    have hlisted : (⟨d.id, UInt64.ofNat (occurrences a w d)⟩ : Posting) ∈ listing b w :=
      h.mem_listing.mpr ⟨d, hd, rfl, hpos, rfl⟩
    exact .inr ⟨w, List.mem_eraseDups.mpr hw, _, hlisted, rfl⟩

/-- With room for all documents the hits are for those in which a word of the query occurs, however
high their scores are. -/
theorem mem_ids_answer (h : Taken a docs b) (hlimit : docs.length ≤ limit) (query : String) :
    id ∈ (answer b query limit).map (·.id) ↔
      ∃ d ∈ docs, d.id = id ∧ ∃ w ∈ a.words query, w ∈ a.words d.indexed ++ a.words d.stored := by
  have hsubset : (tallied b ∅ (a.words query).eraseDups).ranked.map (·.1) ⊆ docs.map Source.id := by
    intro id hid
    obtain ⟨d, hd, heq, -⟩ := (mem_ids_ranked h query).mp hid
    exact List.mem_map.mpr ⟨d, hd, heq⟩
  have hlength := (List.subperm_of_subset (nodup_ids_ranked _) hsubset).length_le
  rw [List.length_map, List.length_map] at hlength
  have hids : (answer b query limit).map (·.id) =
      (tallied b ∅ (a.words query).eraseDups).ranked.map (·.1) := by
    rw [answer, h.analyzer, List.take_of_length_le (hlength.trans hlimit), List.map_map]
    rfl
  rw [hids, mem_ids_ranked h query]

end

/-- A document is among the hits exactly if a word of the query occurs in its text under the field
or in what a search shows of it. -/
theorem searchField_finds_iff (h : Holds c ds x) (hlimit : ds.length ≤ limit) (f : Field)
    (query : String) : ∃ hits y, Serving.searchField f query limit x = .ok hits y ∧ ∀ d ∈ ds,
      ((∃ hit ∈ hits, hit.id = Bytes.ofString d.id) ↔
        ∃ w ∈ (Analyzer.ofConfig c).words query,
          w ∈ (Analyzer.ofConfig c).words (f.project d) ++ (Analyzer.ofConfig c).words d.stored) := by
  obtain ⟨b, hbuilt⟩ := built_of_holds h f
  obtain ⟨cat, s⟩ := x
  obtain ⟨r, hr, hreads⟩ := h
  obtain ⟨hits, r', hstep, hfresh, -⟩ := searchField_of_reads hr hreads f query limit
  rw [freshHits_of_built hbuilt] at hfresh
  obtain rfl := Except.ok.inj hfresh
  refine ⟨_, _, hstep, fun d hd => ?_⟩
  have htaken := taken_of_built hbuilt
  have hroom : (sources f ds).length ≤ limit := by rwa [sources, List.length_map]
  have hnodup : (ds.map fun d => Bytes.ofString d.id).Nodup := by
    have hsources := htaken.nodup
    rwa [sources, List.map_map] at hsources
  have hids : Bytes.ofString d.id ∈ (answer b query limit).map (·.id) ↔ _ :=
    mem_ids_answer htaken hroom query
  rw [List.mem_map] at hids
  rw [hids]
  constructor
  · rintro ⟨e, he, hid, hwords⟩
    obtain ⟨d', hd', rfl⟩ := List.mem_map.mp he
    obtain rfl : d' = d := List.inj_on_of_nodup_map hnodup hd' hd hid
    simp only [Source.indexed, Source.stored] at hwords
    exact hwords
  · intro hwords
    refine ⟨_, List.mem_map.mpr ⟨d, hd, rfl⟩, rfl, ?_⟩
    simp only [Source.indexed, Source.stored]
    exact hwords

end Concordance.Proofs.FieldSearch
