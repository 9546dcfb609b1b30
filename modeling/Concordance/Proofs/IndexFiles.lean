import Concordance.Proofs.BuildOrder
import Concordance.Proofs.IndexRoundTrip
import Concordance.Proofs.StoreRoundTrip

namespace Concordance.Proofs.IndexFiles

open Analysis (Analyzer AnalyzerConfig)
open BlockStore (Record View)
open Index Cursors StoreImage StoreRoundTrip IndexImage IndexReading WordCounts Ranking
open IndexRoundTrip BuildOrder

variable {a : Analyzer} {docs : List Source} {b : Builder} {d : Source}

def Lists (file : Bytes) (base length : Nat) (rs : List Record) : Prop :=
  ∃ v, View.openAt file base length = .ok v ∧ v.allRecords.1 = rs.map .ok

def Tells (r : Record) (x : String × List Posting) : Prop :=
  r.key = Bytes.ofString x.1 ∧ Posting.decode r.value = .ok x.2

def countsOf (id : Bytes) (words : List (String × List Posting)) : List Nat :=
  ((words.flatMap (·.2)).filter (·.id = id)).map (·.count.toNat)

/-- An index file with its header, the records of its documents, and its words with their lists. -/
structure WellFormed (c : AnalyzerConfig) (docs : List Source) (b : Builder) (summary : Summary)
    (file : Bytes) (header : Header) (documents : List Record)
    (words : List (String × List Posting)) : Prop where
  decoded : Header.decode (file.take Header.size) = .ok header
  fingerprint : header.fingerprint = c.fingerprint
  documentCount : header.documentCount.toNat = b.entries.size ∧ b.entries.size = docs.length
  wordCount : header.wordCount.toNat = b.vocabulary.size ∧ b.vocabulary.size = words.length
  length : header.fileLength = file.length ∧ summary.bytes = file.length
  documentStore :
    Lists file Header.documentStoreOffset header.documentStoreLength.toNat documents
  documentsExact : documents.Perm (docs.map fun d => ⟨d.id, Bytes.ofString d.stored⟩)
  documentsAscend : (documents.map (·.key)).Pairwise (· < ·)
  wordStore : ∃ records, Lists file header.wordStoreOffset header.wordStoreLength.toNat records ∧
    List.Forall₂ Tells records words
  wordsAscend : (words.map fun x => Bytes.ofString x.1).Pairwise (· < ·)
  wordsExact : ∀ w, w ∈ words.map (·.1) ↔ ∃ d ∈ docs,
    w ∈ (Analyzer.ofConfig c).words d.indexed ∨ w ∈ (Analyzer.ofConfig c).words d.stored
  listsAscend : ∀ x ∈ words, x.2 ≠ [] ∧ (x.2.map (·.id)).Pairwise (· < ·)
  postings : ∀ x ∈ words, ∀ p ∈ x.2, p.id ∈ documents.map (·.key) ∧ 1 ≤ p.count
  counts : ∀ d ∈ docs, (countsOf d.id words).sum =
    ((Analyzer.ofConfig c).words d.indexed).length + ((Analyzer.ofConfig c).words d.stored).length

theorem documentRecords_perm (h : Taken a docs b) :
    b.documentRecords.Perm (docs.map fun d => ⟨d.id, Bytes.ofString d.stored⟩) := by
  have hleft : b.documentRecords.Nodup := List.Nodup.of_map _ (nodup_documentKeys b)
  have hright : (docs.map fun d => (⟨d.id, Bytes.ofString d.stored⟩ : Record)).Nodup := by
    apply List.Nodup.of_map (·.key)
    rw [List.map_map]
    exact h.nodup
  apply (List.perm_ext_iff_of_nodup hleft hright).mpr
  intro r
  constructor
  · intro hr
    obtain ⟨⟨id, e⟩, he, rfl⟩ := List.mem_map.mp hr
    obtain ⟨d, hd, rfl, rfl⟩ := h.mem_entries.mp he
    exact List.mem_map.mpr ⟨d, hd, rfl⟩
  · intro hr
    obtain ⟨d, hd, rfl⟩ := List.mem_map.mp hr
    exact record_mem h hd

theorem documentKeys_ascend (b : Builder) :
    (b.documentRecords.map (·.key)).Pairwise (· < ·) := by
  have hkeys := (ascending_toList b.entries).pairwise_keys
  rwa [Builder.documentRecords, List.map_map]

def wordLists (b : Builder) : List (String × List Posting) :=
  b.vocabulary.toList.map fun w => (w, listing b w)

theorem listing_of_mem {w : String} (h : w ∈ b.vocabulary.toList) :
    listing b w = Builder.postingsOf w b.entries.toList :=
  if_pos (Std.ExtTreeSet.mem_toList.mp h)

theorem tells_wordRecords (h : size b.documentRecords < UInt32.size) :
    List.Forall₂ Tells b.wordRecords (wordLists b) := by
  rw [Builder.wordRecords, wordLists, List.forall₂_map_left_iff, List.forall₂_map_right_iff,
    List.forall₂_same]
  intro w hw
  refine ⟨rfl, ?_⟩
  dsimp only
  rw [listing_of_mem hw, decode_postingsOf b h]

theorem words_ascend (b : Builder) :
    ((wordLists b).map fun x => Bytes.ofString x.1).Pairwise (· < ·) := by
  have hkeys := (ascending_stored b).pairwise_keys
  rw [stored, List.map_map] at hkeys
  rwa [wordLists, List.map_map]

theorem mem_words (h : Taken a docs b) (w : String) : w ∈ (wordLists b).map (·.1) ↔
    ∃ d ∈ docs, w ∈ a.words d.indexed ∨ w ∈ a.words d.stored := by
  have hmap : (wordLists b).map (·.1) = b.vocabulary.toList := by
    rw [wordLists, List.map_map]
    exact List.map_id _
  rw [hmap, Std.ExtTreeSet.mem_toList, h.vocabulary]
  simp only [occurrences, List.count_pos_iff, List.mem_append]

theorem lists_ascend (h : Taken a docs b) : ∀ x ∈ wordLists b, x.2 ≠ [] ∧
    (x.2.map (·.id)).Pairwise (· < ·) := by
  intro x hx
  obtain ⟨w, hw, rfl⟩ := List.mem_map.mp hx
  constructor
  · obtain ⟨d, hd, hpos⟩ := (h.vocabulary w).mp (Std.ExtTreeSet.mem_toList.mp hw)
    have hmem : ⟨d.id, UInt64.ofNat (occurrences a w d)⟩ ∈ listing b w :=
      h.mem_listing.mpr ⟨d, hd, rfl, hpos, rfl⟩
    exact List.ne_nil_of_mem hmem
  · exact ids_listing_ascend b w

theorem postings_present (h : Taken a docs b) (hc : Countable a docs) : ∀ x ∈ wordLists b,
    ∀ p ∈ x.2, p.id ∈ b.documentRecords.map (·.key) ∧ 1 ≤ p.count := by
  intro x hx p hp
  obtain ⟨w, hw, rfl⟩ := List.mem_map.mp hx
  obtain ⟨d, hd, hid, hpos, hcount⟩ := h.mem_listing.mp hp
  refine ⟨hid ▸ List.mem_map.mpr ⟨_, record_mem h hd, rfl⟩, ?_⟩
  rw [UInt64.le_iff_toNat_le, hcount, UInt64.toNat_ofNat_of_lt' (hc.occurrences_lt hd w)]
  exact hpos

theorem filter_of_nodup {ps : List Posting} (h : (ps.map (·.id)).Nodup) (id : Bytes) :
    ps.filter (·.id = id) = (ps.find? (·.id = id)).toList := by
  induction ps with
  | nil => rfl
  | cons p ps ih =>
      rw [List.map_cons, List.nodup_cons] at h
      by_cases hid : p.id = id
      · have hnone : ps.filter (·.id = id) = [] := by
          rw [List.filter_eq_nil_iff]
          intro q hq heq
          exact h.1 (List.mem_map.mpr ⟨q, hq, (of_decide_eq_true heq).trans hid.symm⟩)
        rw [List.filter_cons_of_pos (by simpa using hid), hnone,
          List.find?_cons_of_pos (by simpa using hid)]
        rfl
      · rw [List.filter_cons_of_neg (by simpa using hid), ih h.2,
          List.find?_cons_of_neg (by simpa using hid)]

theorem counts_listing (h : Taken a docs b) (hc : Countable a docs) (hd : d ∈ docs) (w : String) :
    (((listing b w).filter (·.id = d.id)).map (·.count.toNat)).sum = occurrences a w d := by
  rw [filter_of_nodup (ids_listing_nodup b w), find?_listing h,
    (find?_eq_some_iff h.nodup).mpr ⟨hd, rfl⟩, Option.bind_some]
  split
  · rename_i hzero
    exact hzero.symm
  · simp [UInt64.toNat_ofNat_of_lt' (hc.occurrences_lt hd w)]

theorem sum_occurrences (h : Taken a docs b) (hd : d ∈ docs) :
    (b.vocabulary.toList.map (occurrences a · d)).sum =
      (a.words d.indexed).length + (a.words d.stored).length := by
  have hmem : ∀ w ∈ (↑(a.words d.indexed ++ a.words d.stored) : Multiset String),
      w ∈ b.vocabulary.toList.toFinset := by
    intro w hw
    rw [List.mem_toFinset, Std.ExtTreeSet.mem_toList, h.vocabulary]
    exact ⟨d, hd, List.count_pos_iff.mpr hw⟩
  have hcard := Multiset.sum_count_eq_card hmem
  simp only [Multiset.coe_count, Multiset.coe_card] at hcard
  rw [← List.sum_toFinset _ (nodup_vocabulary b), ← List.length_append]
  exact hcard

theorem counts_wordLists (h : Taken a docs b) (hc : Countable a docs) (hd : d ∈ docs) :
    (countsOf d.id (wordLists b)).sum =
      (a.words d.indexed).length + (a.words d.stored).length := by
  have hlists : countsOf d.id (wordLists b) = (b.vocabulary.toList.map fun w =>
      ((listing b w).filter (·.id = d.id)).map (·.count.toNat)).flatten := by
    rw [countsOf, wordLists, List.flatMap_map, List.filter_flatMap, List.map_flatMap,
      List.flatMap_def]
  rw [hlists, List.sum_flatten, List.map_map, ← sum_occurrences h hd]
  exact congrArg List.sum (List.map_congr_left fun w _ => counts_listing h hc hd w)

theorem lists_of_lies {file : Bytes} {base length : Nat} {rs : List Record}
    (hlies : Lies file base (image rs)) (hlength : length = size rs)
    (hfile : file.length < UInt64.size) (hsmall : size rs < UInt32.size) :
    Lists file base length rs := by
  subst hlength
  rw [← Tape.toBytes_ofBytes file] at hlies
  rw [← Tape.size_ofBytes] at hfile
  obtain ⟨v, hopen, hshows, -, -⟩ :=
    StoreReading.ofInput_spec (over_ofBytes file) hlies hfile hsmall
  exact ⟨v, hopen, allRecords_spec hshows⟩

theorem decode_parts (b : Builder) :
    Header.decode ((parts b).flatten.take Header.size) = .ok (headerOf b) := by
  have hslice := (lies_parts b).1.slice_eq
  rw [Header.length_encode, Bytes.slice, List.drop_zero] at hslice
  rw [hslice, Codecs.decode_header]

theorem length_lt_of_small {rs : List Record} (h : size rs < UInt32.size) :
    rs.length < UInt64.size := by
  have hrecords := (length_le_dataSize rs).trans (dataSize_le_size rs)
  have hmax : UInt32.size < UInt64.size := by decide
  omega

theorem documentCount_headerOf (h : size b.documentRecords < UInt32.size) :
    (headerOf b).documentCount.toNat = b.entries.size := by
  have hrecords := length_lt_of_small h
  rw [Builder.documentRecords, List.length_map, Std.ExtTreeMap.length_toList] at hrecords
  exact UInt64.toNat_ofNat_of_lt' hrecords

theorem wordCount_headerOf (h : size b.wordRecords < UInt32.size) :
    (headerOf b).wordCount.toNat = b.vocabulary.size := by
  have hrecords := length_lt_of_small h
  rw [Builder.wordRecords, List.length_map, Std.ExtTreeSet.length_toList] at hrecords
  exact UInt64.toNat_ofNat_of_lt' hrecords

theorem size_entries (h : Taken a docs b) : b.entries.size = docs.length := by
  have hrecords := (documentRecords_perm h).length_eq
  rwa [Builder.documentRecords, List.length_map, Std.ExtTreeMap.length_toList,
    List.length_map] at hrecords

theorem wellFormed_parts {c : AnalyzerConfig} (h : Taken (Analyzer.ofConfig c) docs b)
    (hc : Countable (Analyzer.ofConfig c) docs) (hd : size b.documentRecords < UInt32.size)
    (hw : size b.wordRecords < UInt32.size) :
    WellFormed c docs b ⟨b.entries.size, b.vocabulary.size, (headerOf b).fileLength⟩
      (parts b).flatten (headerOf b) b.documentRecords (wordLists b) := by
  have hsize : fileSize b = 4096 + size b.documentRecords + size b.wordRecords := rfl
  have hmax : UInt32.size + UInt32.size + 4096 < UInt64.size := by decide
  have hfile : (parts b).flatten.length < UInt64.size := by
    rw [length_parts]
    omega
  have hlength : (headerOf b).fileLength = (parts b).flatten.length := by
    rw [fileLength_headerOf b hd hw, length_parts]
  have hdlength := documentStoreLength_headerOf b hd
  have hwlength := wordStoreLength_headerOf b hw
  obtain ⟨-, hdocuments, hwords⟩ := lies_parts b
  rw [← hdlength] at hwords
  have hwordCount : b.vocabulary.size = (wordLists b).length := by
    rw [wordLists, List.length_map, Std.ExtTreeSet.length_toList]
  exact {
    decoded := decode_parts b
    fingerprint := by
      rw [headerOf, h.analyzer]
      rfl
    documentCount := ⟨documentCount_headerOf hd, size_entries h⟩
    wordCount := ⟨wordCount_headerOf hw, hwordCount⟩
    length := ⟨hlength, hlength⟩
    documentStore := lists_of_lies hdocuments hdlength hfile hd
    documentsExact := documentRecords_perm h
    documentsAscend := documentKeys_ascend b
    wordStore := ⟨_, lists_of_lies hwords hwlength hfile hw, tells_wordRecords hd⟩
    wordsAscend := words_ascend b
    wordsExact := mem_words h
    listsAscend := lists_ascend h
    postings := postings_present h hc
    counts := fun _ hmem => counts_wordLists h hc hmem }

/-- Every index file shorter than 4 GiB is written, and every index file is well formed. -/
theorem finish_wellFormed (c : AnalyzerConfig) (calls : List Source)
    (htexts : ∀ d ∈ accepted offer calls (Builder.ofConfig c), d.indexed.length < textLimit) :
    (fileSize (offered offer calls (Builder.ofConfig c)) < UInt32.size →
      ∃ chunks summary, (offered offer calls (Builder.ofConfig c)).finish = .ok (chunks, summary) ∧
        chunks.flatten.length = fileSize (offered offer calls (Builder.ofConfig c))) ∧
    ∀ chunks summary, (offered offer calls (Builder.ofConfig c)).finish = .ok (chunks, summary) →
      ∃ header documents words, WellFormed c (accepted offer calls (Builder.ofConfig c))
        (offered offer calls (Builder.ofConfig c)) summary chunks.flatten header documents
          words := by
  obtain ⟨-, htaken⟩ := selects_offer.run (taken_ofConfig c) calls
  rw [List.nil_append] at htaken
  constructor
  · intro hsmall
    rw [fileSize] at hsmall
    exact ⟨_, _, finish_of_lt _ (by omega) (by omega), length_parts _⟩
  · intro chunks summary hfinish
    obtain ⟨⟨hd, hw⟩, heq⟩ := (finish_eq_ok_iff _ _).mp hfinish
    obtain ⟨rfl, rfl⟩ := Prod.mk.inj heq
    exact ⟨_, _, _, wellFormed_parts htaken (countable_of_small htaken htexts hd) hd hw⟩

def shortCalls : List Source :=
  [([47, 98], "Fox", ""), ([47, 98], "dog", ""), ([47, 97], "", "fox")]

theorem finish_wellFormed_short :
    accepted offer shortCalls (Builder.ofConfig {}) =
        [([47, 98], "Fox", ""), ([47, 97], "", "fox")] ∧
      (∀ d ∈ accepted offer shortCalls (Builder.ofConfig {}), d.indexed.length < textLimit) ∧
      fileSize (offered offer shortCalls (Builder.ofConfig {})) < UInt32.size ∧
      ∃ chunks summary header documents words,
        (offered offer shortCalls (Builder.ofConfig {})).finish = .ok (chunks, summary) ∧
          WellFormed {} [([47, 98], "Fox", ""), ([47, 97], "", "fox")]
            (offered offer shortCalls (Builder.ofConfig {})) summary chunks.flatten header
            documents words := by
  have haccepted : accepted offer shortCalls (Builder.ofConfig {}) =
      [([47, 98], "Fox", ""), ([47, 97], "", "fox")] := by
    rw [accepted_offer]
    decide
  have htexts : ∀ d ∈ accepted offer shortCalls (Builder.ofConfig {}),
      d.indexed.length < textLimit := by
    rw [haccepted]
    decide
  have hsmall : fileSize (offered offer shortCalls (Builder.ofConfig {})) < UInt32.size := by
    decide +kernel
  obtain ⟨hwritten, hwell⟩ := finish_wellFormed {} shortCalls htexts
  obtain ⟨chunks, summary, hfinish, -⟩ := hwritten hsmall
  obtain ⟨header, documents, words, h⟩ := hwell chunks summary hfinish
  rw [haccepted] at h
  exact ⟨haccepted, htexts, hsmall, chunks, summary, header, documents, words, hfinish, h⟩

end Concordance.Proofs.IndexFiles
