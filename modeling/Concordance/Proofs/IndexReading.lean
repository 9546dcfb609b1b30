import Concordance.Index.Searcher
import Concordance.Proofs.IndexImage

namespace Concordance.Proofs.IndexReading

open Analysis (Analyzer AnalyzerConfig)
open BlockStore (View Viewing)
open Index Outcomes Cursors StoreImage StoreReading StoreSearch IndexImage

/-- The searcher is over a file that holds the two stores of the builder. -/
structure Serves (p : Tape) (b : Builder) (s : Searcher) : Prop where
  header : s.header = headerOf b
  analyzer : s.analyzer = b.analyzer
  decodable : size b.documentRecords < UInt32.size
  documents : Shows p b.documentRecords s.documents
  words : Shows p b.wordRecords s.words

def tallied (b : Builder) (scores : Scores) (ws : List String) : Scores :=
  ws.foldl (fun scores w => (listing b w).foldl (fun s p => s.add p) scores) scores

def hitOf (b : Builder) (x : Bytes × UInt64) : Hit :=
  ⟨x.1, (b.entries[x.1]?.map (·.stored)).getD [], x.2⟩

def answer (b : Builder) (query : String) (limit : Nat) : List Hit :=
  ((tallied b ∅ (b.analyzer.words query).eraseDups).ranked.take limit).map (hitOf b)

variable {p : Tape} {b : Builder} {s : Searcher}

theorem onDocuments_spec {α : Type} {m : Viewing α} {a : α} {P : View → Prop}
    (hm : Gives m s.documents a P) :
    Gives (Searcher.onDocuments m) s a (fun t => ∃ v, t = { s with documents := v } ∧ P v) := by
  obtain ⟨v, hv, hp⟩ := hm
  exact ⟨{ s with documents := v }, by simp only [Searcher.onDocuments, hv], v, rfl, hp⟩

theorem onWords_spec {α : Type} {m : Viewing α} {a : α} {P : View → Prop}
    (hm : Gives m s.words a P) :
    Gives (Searcher.onWords m) s a (fun t => ∃ v, t = { s with words := v } ∧ P v) := by
  obtain ⟨v, hv, hp⟩ := hm
  exact ⟨{ s with words := v }, by simp only [Searcher.onWords, hv], v, rfl, hp⟩

theorem document_spec (h : Serves p b s) (id : Bytes) :
    Gives (Searcher.document id) s (b.entries[id]?.map (·.stored)) (Serves p b) := by
  have hfind := find_spec h.documents id
  rw [values_documentRecords] at hfind
  apply (onDocuments_spec hfind).mono
  rintro t ⟨v, rfl, hv⟩
  exact ⟨h.header, h.analyzer, h.decodable, hv.shows, h.words⟩

theorem postings_spec (h : Serves p b s) (w : String) :
    Gives (Searcher.postings w) s (listing b w) (Serves p b) := by
  have hfind := find_spec h.words (Bytes.ofString w)
  rw [values_wordRecords] at hfind
  apply Gives.bind (onWords_spec hfind)
  rintro t ⟨v, rfl, hv⟩
  have hserves : Serves p b { s with words := v } :=
    ⟨h.header, h.analyzer, h.decodable, h.documents, hv.shows⟩
  rw [listing]
  by_cases hw : w ∈ b.vocabulary
  · simp only [if_pos hw, decode_postingsOf b h.decodable w]
    exact ⟨_, rfl, hserves⟩
  · simp only [if_neg hw]
    exact ⟨_, rfl, hserves⟩

theorem score_spec (h : Serves p b s) (scores : Scores) (ws : List String) :
    Gives (Searcher.score scores ws) s (tallied b scores ws) (Serves p b) := by
  induction ws generalizing s scores with
  | nil => exact ⟨s, rfl, h⟩
  | cons w ws ih =>
      apply Gives.bind (postings_spec h w)
      intro t ht
      exact ih ht _

theorem resolve_spec (h : Serves p b s) {ranked : List (Bytes × UInt64)}
    (hstored : ∀ x ∈ ranked, b.entries[x.1]? ≠ none) :
    Gives (Searcher.resolve ranked) s (ranked.map (hitOf b)) (Serves p b) := by
  induction ranked generalizing s with
  | nil => exact ⟨s, rfl, h⟩
  | cons x ranked ih =>
      obtain ⟨id, n⟩ := x
      apply Gives.bind (document_spec h id)
      intro t ht
      obtain ⟨e, he⟩ := Option.ne_none_iff_exists'.mp (hstored (id, n) (by simp))
      simp only at he
      simp only [he, Option.map_some]
      apply Gives.bind (ih ht fun y hy => hstored y (by simp [hy]))
      intro u hu
      refine ⟨u, ?_, hu⟩
      rw [List.map_cons, hitOf, he]
      rfl

theorem id_of_mem_listing {w : String} {q : Posting} (hq : q ∈ listing b w) :
    b.entries[q.id]? ≠ none := by
  rw [listing] at hq
  split at hq
  · have hid := (ids_postingsOf w b.entries.toList).subset (List.mem_map.mpr ⟨q, hq, rfl⟩)
    obtain ⟨⟨id, e⟩, hmem, heq⟩ := List.mem_map.mp hid
    have he := Std.ExtTreeMap.mem_toList_iff_getElem?_eq_some.mp hmem
    rw [← heq, he]
    exact Option.some_ne_none e
  · simp at hq

/-- Only documents that were taken in have scores. -/
def Scored (b : Builder) (scores : Scores) : Prop :=
  ∀ id : Bytes, scores[id]? ≠ none → b.entries[id]? ≠ none

theorem scored_foldl_add {scores : Scores} (h : Scored b scores) {ps : List Posting}
    (hps : ∀ q ∈ ps, b.entries[q.id]? ≠ none) :
    Scored b (ps.foldl (fun s p => s.add p) scores) := by
  induction ps generalizing scores with
  | nil => exact h
  | cons q ps ih =>
      apply ih
      · intro id hid
        rw [Scores.getElem?_add] at hid
        by_cases heq : q.id = id
        · exact heq ▸ hps q (by simp)
        · rw [if_neg heq] at hid
          exact h id hid
      · exact fun r hr => hps r (by simp [hr])

theorem scored_tallied {scores : Scores} (h : Scored b scores) (ws : List String) :
    Scored b (tallied b scores ws) := by
  induction ws generalizing scores with
  | nil => exact h
  | cons w ws ih => exact ih (scored_foldl_add h fun q hq => id_of_mem_listing hq)

theorem scored_empty : Scored b ∅ := by
  intro id hid
  simp at hid

theorem stored_of_mem_ranked {ws : List String} {x : Bytes × UInt64}
    (hx : x ∈ (tallied b ∅ ws).ranked) : b.entries[x.1]? ≠ none := by
  have hmem : x ∈ (tallied b ∅ ws).toList := (List.mergeSort_perm _ _).mem_iff.mp hx
  have hsome := Std.ExtTreeMap.mem_toList_iff_getElem?_eq_some.mp hmem
  apply scored_tallied scored_empty ws x.1
  rw [hsome]
  exact Option.some_ne_none x.2

theorem search_spec (h : Serves p b s) (query : String) (limit : Nat) :
    Gives (Searcher.search query limit) s (answer b query limit) (Serves p b) := by
  rw [Searcher.search]
  by_cases hlimit : limit = 0
  · rw [if_pos hlimit]
    refine ⟨s, ?_, h⟩
    rw [answer, hlimit, List.take_zero]
    rfl
  · rw [if_neg hlimit, gives_get_bind_iff, h.analyzer]
    apply Gives.bind (score_spec h ∅ _)
    intro t ht
    exact resolve_spec ht fun x hx => stored_of_mem_ranked (List.mem_of_mem_take hx)

theorem ofInput_stores {i : Input} (hi : Over p i) {h : Header} {c : AnalyzerConfig}
    {ds ws : List BlockStore.Record} (hheader : Lies p.toBytes 0 h.encode)
    (hdocuments : Lies p.toBytes Header.size (image ds))
    (hwords : Lies p.toBytes h.wordStoreOffset (image ws)) (hlength : h.fileLength = p.size)
    (haddr : p.size < UInt64.size)
    (hd : size ds < UInt32.size ∧ h.documentStoreLength.toNat = size ds)
    (hw : size ws < UInt32.size ∧ h.wordStoreLength.toNat = size ws)
    (hprint : (Analyzer.ofConfig c).fingerprint = h.fingerprint) :
    ∃ s, Searcher.ofInput i c = .ok s ∧ s.header = h ∧ s.analyzer = Analyzer.ofConfig c ∧
      Shows p ds s.documents ∧ Shows p ws s.words := by
  have hlong : Header.size ≤ p.size := by
    rw [← hlength, Header.fileLength, Nat.add_assoc]
    exact Nat.le_add_right _ _
  obtain ⟨j, hj, hover, hpos⟩ := hi.seek (n := 0) (by decide)
  obtain ⟨k, hk, hover', -⟩ := hover.readExact Header.size
  rw [hpos, if_pos (by omega)] at hk
  have hhead : p.toBytes.slice 0 Header.size = h.encode := by
    rw [← h.length_encode, hheader.slice_eq]
  obtain ⟨vd, hvd, hsd, -, -⟩ := StoreReading.ofInput_spec hover' hdocuments haddr hd.1
  obtain ⟨vw, hvw, hsw, -, -⟩ := StoreReading.ofInput_spec hover'.clone hwords haddr hw.1
  rw [← hd.2] at hvd
  rw [← hw.2] at hvw
  have hfile : h.fileLength = k.size := by rw [hover'.size_eq, hlength]
  have hdecode : (Header.decode h.encode).mapError Error.format = .ok h := by
    rw [Codecs.decode_header]
    rfl
  refine ⟨⟨h, Analyzer.ofConfig c, vd, vw⟩, ?_, rfl, rfl, hsd, hsw⟩
  rw [Searcher.ofInput, if_neg (by rw [hi.size_eq]; omega)]
  simp only [hj, hk, hhead, ok_bind, hdecode, hfile, hprint, hvd, hvw, ne_eq, not_true_eq_false,
    if_false]
  rfl

theorem ofInput_spec {i : Input} (hi : Over p i) (hp : p.toBytes = (parts b).flatten)
    (hd : size b.documentRecords < UInt32.size) (hw : size b.wordRecords < UInt32.size)
    {c : AnalyzerConfig} (hc : b.analyzer = Analyzer.ofConfig c) :
    ∃ s, Searcher.ofInput i c = .ok s ∧ Serves p b s := by
  obtain ⟨hheader, hdocuments, hwords⟩ := lies_parts b
  have hdlength := documentStoreLength_headerOf b hd
  have hwlength := wordStoreLength_headerOf b hw
  have hlen : p.size = fileSize b := by rw [← Tape.length_toBytes, hp, length_parts]
  have hsize : fileSize b = 4096 + size b.documentRecords + size b.wordRecords := rfl
  have hmax : UInt32.size + UInt32.size + 4096 < UInt64.size := by decide
  have hlength : (headerOf b).fileLength = p.size := by rw [fileLength_headerOf b hd hw, hlen]
  rw [← hdlength] at hwords
  rw [← hp] at hheader hdocuments hwords
  obtain ⟨s, hopen, hhead, hanalyzer, hsd, hsw⟩ := ofInput_stores hi hheader hdocuments hwords
    hlength (by omega) ⟨hd, hdlength⟩ ⟨hw, hwlength⟩ (by rw [← hc]; rfl)
  exact ⟨s, hopen, hhead, hanalyzer.trans hc.symm, hd, hsd, hsw⟩

end Concordance.Proofs.IndexReading
