import Concordance.Proofs.IndexFiles
import Concordance.Proofs.SmallForms
import Concordance.Proofs.StoppedWords

namespace Concordance.Proofs.SearchableWords

open Analysis (Analyzer AnalyzerConfig)
open Text Pieces Words SmallForms
open Index Cursors StoreImage IndexImage IndexReading Ranking IndexRoundTrip BuildOrder IndexFiles

variable {a : Analyzer} {docs : List Source} {b : Builder} {w : String}

theorem fold_fold (s : String) : fold (fold s) = fold s := by
  by_cases hupper : s.toList.any isUppercase = true
  · rw [fold.eq_def s, if_pos hupper, fold, lowercase_lowercase, ite_self]
  · rw [fold.eq_def s, if_neg hupper, fold, if_neg hupper]

theorem not_isDelimiter_of_letterlike {c : Char} (h : Letterlike c) : isDelimiter c = false := by
  have hmarks : ∀ d ∈ marks, d.toNat < 'a'.toNat := by simp [marks]
  rw [← Bool.not_eq_true, isDelimiter_iff, h.1]
  rintro (hspace | hmem)
  · cases hspace
  · exact absurd (hmarks c hmem) (Nat.not_lt.mpr h.2)

theorem not_isDelimiter_fold {s : String} (h : ∀ c ∈ s.toList, isDelimiter c = false) :
    ∀ c ∈ (fold s).toList, isDelimiter c = false := by
  intro c hc
  rw [fold] at hc
  split at hc
  · rw [lowercase, String.toList_ofList] at hc
    exact (mem_lowercaseFrom hc).2.elim (h c) not_isDelimiter_of_letterlike
  · exact h c hc

theorem words_of_mem {text : String} (h : w ∈ a.words text) : a.words w = [w] := by
  rw [words_eq] at h
  obtain ⟨hstretch, hkept⟩ := List.mem_filter.mp h
  obtain ⟨f, hf, rfl⟩ := List.mem_map.mp hstretch
  obtain ⟨hne, hall⟩ := mem_pieces hf
  have hword : (fold (String.ofList f)).toList ≠ [] := by
    simpa using StoppedWords.fold_ne_empty (s := String.ofList f) (by simpa using hne)
  have hwhole : ∀ c ∈ (fold (String.ofList f)).toList, isDelimiter c = false := by
    apply not_isDelimiter_fold
    rw [String.toList_ofList]
    exact fun c hc => (hall c hc).2
  rw [words_eq, pieces_of_forall hwhole, List.filter_cons_of_pos (by simpa using hword),
    List.filter_nil, List.map_singleton, String.ofList_toList, fold_fold]
  exact List.filter_eq_self.mpr (List.forall_mem_singleton.mpr hkept)

theorem words_joined (a : Analyzer) (text : String) :
    a.words (joinWith ' ' (a.words text)) = a.words text := by
  rw [words_joinWith a isDelimiter_blank]
  calc (a.words text).flatMap a.words
      = (a.words text).flatMap fun w => [w] := List.flatMap_congr fun w hw => words_of_mem hw
    _ = a.words text := List.flatMap_singleton' _

theorem saturatingAdd_zero (n : UInt64) : saturatingAdd 0 n = n := by
  have hlt := n.toNat_lt
  have hle : n.toNat ≤ UInt64.size - 1 := by
    rw [UInt64.size]
    omega
  rw [saturatingAdd, UInt64.toNat_zero, Nat.zero_add, Nat.min_eq_left hle, UInt64.ofNat_toNat]

theorem mem_ranked {id : Bytes} {n : UInt64} :
    (id, n) ∈ (tallied b ∅ [w]).ranked ↔ (id, n) ∈ (listing b w).map fun p => (p.id, p.count) := by
  have hscores : (tallied b ∅ [w])[id]? = ((listing b w).find? (·.id = id)).map (·.count) := by
    rw [tallied, List.foldl_cons, List.foldl_nil, getElem?_foldl_add (ids_listing_nodup b w)]
    cases (listing b w).find? (·.id = id) with
    | none => exact Std.ExtTreeMap.getElem?_empty
    | some p =>
        simp only [Std.ExtTreeMap.getElem?_empty, Option.getD_none, saturatingAdd_zero,
          Option.map_some]
  rw [Scores.ranked, (List.mergeSort_perm _ _).mem_iff,
    Std.ExtTreeMap.mem_toList_iff_getElem?_eq_some, hscores, Option.map_eq_some_iff]
  simp only [find?_eq_some_iff (ids_listing_nodup b w), List.mem_map, Prod.mk.injEq, and_assoc]

theorem ranked_perm (b : Builder) (w : String) :
    (tallied b ∅ [w]).ranked.Perm ((listing b w).map fun p => (p.id, p.count)) := by
  have hids := ids_listing_nodup b w
  have hleft : (tallied b ∅ [w]).ranked.Nodup := List.Nodup.of_map _ (nodup_ids_ranked _)
  have hright : ((listing b w).map fun p => (p.id, p.count)).Nodup := by
    apply List.Nodup.of_map Prod.fst
    rwa [List.map_map]
  exact (List.perm_ext_iff_of_nodup hleft hright).mpr fun _ => mem_ranked

theorem length_listing_le (b : Builder) (w : String) : (listing b w).length ≤ b.entries.size := by
  rw [listing]
  split
  · have hsub := (ids_postingsOf w b.entries.toList).length_le
    rwa [List.length_map, List.length_map, Std.ExtTreeMap.length_toList] at hsub
  · exact Nat.zero_le _

theorem answer_perm (hword : b.analyzer.words w = [w]) {limit : Nat}
    (hlimit : b.entries.size ≤ limit) :
    (answer b w limit).Perm ((listing b w).map fun p => hitOf b (p.id, p.count)) := by
  have honce : [w].eraseDups = [w] := by simp [List.eraseDups_cons]
  have hlength := (ranked_perm b w).length_eq
  have hle := (length_listing_le b w).trans hlimit
  rw [List.length_map] at hlength
  rw [answer, hword, honce, List.take_of_length_le (by rwa [hlength])]
  have hperm := (ranked_perm b w).map (hitOf b)
  rwa [List.map_map] at hperm

/-- The words of the word store are words of the texts, and so of themselves. -/
theorem words_of_vocabulary (h : Taken a docs b) (hw : w ∈ b.vocabulary.toList) :
    b.analyzer.words w = [w] := by
  obtain ⟨d, -, hpos⟩ := (h.vocabulary w).mp (Std.ExtTreeSet.mem_toList.mp hw)
  rw [h.analyzer]
  rcases List.mem_append.mp (List.count_pos_iff.mp hpos) with hmem | hmem
  · exact words_of_mem hmem
  · exact words_of_mem hmem

theorem search_word {p : Tape} {s : Searcher} (hs : Serves p b s) (h : Taken a docs b)
    (hw : w ∈ b.vocabulary.toList) {limit : Nat} (hlimit : b.entries.size ≤ limit) :
    ∃ hits u, Searcher.search w limit s = .ok hits u ∧ hits.Perm ((listing b w).map fun p =>
      ⟨p.id, (storedFor docs p.id).getD [], p.count⟩) := by
  obtain ⟨u, hsearch, -⟩ := search_spec hs w limit
  refine ⟨_, u, hsearch, ?_⟩
  have hanswer := answer_perm (words_of_vocabulary h hw) hlimit
  simp only [hitOf, document_eq h] at hanswer
  exact hanswer

/-- The words of a text have themselves as their only words, and in every index file a search for
any word of its word store gives the documents of the word's list, with the counts as scores. -/
theorem words_searchable (c : AnalyzerConfig) :
    (∀ text, ∀ w ∈ (Analyzer.ofConfig c).words text, (Analyzer.ofConfig c).words w = [w]) ∧
    (∀ text, (Analyzer.ofConfig c).words (joinWith ' ' ((Analyzer.ofConfig c).words text)) =
      (Analyzer.ofConfig c).words text) ∧
    ∀ calls chunks summary,
      (offered offer calls (Builder.ofConfig c)).finish = .ok (chunks, summary) →
      ∃ s records, Searcher.ofBytes chunks.flatten c = .ok s ∧
        Lists chunks.flatten s.header.wordStoreOffset s.header.wordStoreLength.toNat records ∧
        ∀ r ∈ records, ∃ w ps, Tells r (w, ps) ∧ ∀ asked : List Call, ∀ limit,
          s.header.documentCount.toNat ≤ limit →
            ∃ hits u, Searcher.search w limit (asked.foldl Call.after s) = .ok hits u ∧
              hits.Perm (ps.map fun p => ⟨p.id, (storedFor (accepted offer calls
                (Builder.ofConfig c)) p.id).getD [], p.count⟩) := by
  refine ⟨fun text w hw => words_of_mem hw, words_joined _, ?_⟩
  intro calls chunks summary hfinish
  obtain ⟨-, htaken⟩ := selects_offer.run (taken_ofConfig c) calls
  rw [List.nil_append] at htaken
  generalize offered offer calls (Builder.ofConfig c) = b at hfinish htaken
  obtain ⟨⟨hd, hw⟩, hparts⟩ := (finish_eq_ok_iff b _).mp hfinish
  obtain ⟨rfl, -⟩ := Prod.mk.inj hparts
  have hdlength := documentStoreLength_headerOf b hd
  have hfile : (parts b).flatten.length < UInt64.size := by
    have hmax : UInt32.size + UInt32.size + Header.size < UInt64.size := by decide
    rw [length_parts, fileSize]
    omega
  obtain ⟨s, hopen, hserves⟩ := IndexReading.ofInput_spec (over_ofBytes (parts b).flatten)
    (Tape.toBytes_ofBytes _) hd hw htaken.analyzer
  obtain ⟨-, -, hwords⟩ := lies_parts b
  rw [← hdlength] at hwords
  refine ⟨s, b.wordRecords, hopen, ?_, ?_⟩
  · rw [hserves.header]
    exact lists_of_lies hwords (wordStoreLength_headerOf b hw) hfile hw
  · intro r hr
    obtain ⟨w, hmem, rfl⟩ := List.mem_map.mp hr
    refine ⟨w, listing b w, ⟨rfl, ?_⟩, ?_⟩
    · rw [listing_of_mem hmem]
      exact decode_postingsOf b hd w
    · intro asked limit hlimit
      rw [hserves.header, documentCount_headerOf hd] at hlimit
      exact search_word (serves_afterAll hserves asked) htaken hmem hlimit

def capitalCalls : List Source := [([47, 98], "ΟΔΟΣ!", ""), ([47, 97], "", "İ")]

theorem words_searchable_capitals :
    (Analyzer.ofConfig {}).words "οδος" = ["οδος"] ∧
    (Analyzer.ofConfig {}).words "i\u0307" = ["i\u0307"] ∧
    ∃ chunks summary s records,
      (offered offer capitalCalls (Builder.ofConfig {})).finish = .ok (chunks, summary) ∧
      Searcher.ofBytes chunks.flatten {} = .ok s ∧
      Lists chunks.flatten s.header.wordStoreOffset s.header.wordStoreLength.toNat records ∧
      ∀ r ∈ records, ∃ w ps, Tells r (w, ps) ∧ ∃ hits u,
        Searcher.search w s.header.documentCount.toNat s = .ok hits u ∧
          hits.Perm (ps.map fun p => ⟨p.id, (storedFor (accepted offer capitalCalls
            (Builder.ofConfig {})) p.id).getD [], p.count⟩) := by
  obtain ⟨hself, -, hindex⟩ := words_searchable {}
  have hsmall : fileSize (offered offer capitalCalls (Builder.ofConfig {})) < UInt32.size := by
    decide +kernel
  rw [fileSize] at hsmall
  have hfinish := finish_of_lt (offered offer capitalCalls (Builder.ofConfig {})) (by omega)
    (by omega)
  obtain ⟨s, records, hopen, hlists, hfound⟩ := hindex capitalCalls _ _ hfinish
  refine ⟨hself "ΟΔΟΣ!" "οδος" (by decide +kernel), hself "İ" "i\u0307" (by decide +kernel),
    _, _, s, records, hfinish, hopen, hlists, ?_⟩
  intro r hr
  obtain ⟨w, ps, htells, hhits⟩ := hfound r hr
  exact ⟨w, ps, htells, hhits [] _ (Nat.le_refl _)⟩

end Concordance.Proofs.SearchableWords
