import Concordance.Proofs.BuildOrder
import Concordance.Proofs.IndexReading
import Concordance.Proofs.Words

namespace Concordance.Proofs.Fingerprints

open Analysis (Analyzer AnalyzerConfig)
open Analysis.StopWords (image)
open Text Index Outcomes Cursors Pieces Words WordCounts IndexImage IndexReading Ranking BuildOrder

variable {v w : List String} {c d : AnalyzerConfig}

def isZero (c : Char) : Bool := c = '\x00'

def closed (words : List String) : List Char := words.flatMap fun w => w.toList ++ ['\x00']

/-- What lies between the zeros of the words. -/
def cut (words : List String) : List String := words.flatMap (fields isZero)

theorem image_eq_closed (words : List String) : image words =
    Bytes.ofString (String.ofList ("standard".toList ++ ['\x00'] ++ closed words)) := by
  have hzero : ∀ w : String, Bytes.ofString w ++ [0] =
      (w.toList ++ ['\x00']).flatMap String.utf8EncodeChar := by
    intro w
    rw [List.flatMap_append, ← ofString_eq_flatMap]
    rfl
  have hwords : (words.flatMap fun w => Bytes.ofString w ++ [0]) =
      (closed words).flatMap String.utf8EncodeChar := by
    simp only [hzero]
    rw [closed, List.flatMap_assoc]
  rw [image, hwords, hzero, ← List.flatMap_append, ofString_eq_flatMap]
  exact congrArg (List.flatMap String.utf8EncodeChar) String.toList_ofList.symm

theorem fieldsOf_closed (words : List String) : fieldsOf isZero (closed words) =
    (words.flatMap fun w => fieldsOf isZero w.toList) ++ [[]] := by
  induction words with
  | nil => rfl
  | cons w words ih =>
      have hcons : closed (w :: words) = w.toList ++ '\x00' :: closed words := by
        rw [closed, List.flatMap_cons, List.append_assoc]
        rfl
      rw [hcons, fieldsOf_append_cons rfl, ih, List.flatMap_cons, List.append_assoc]

theorem cut_eq (words : List String) : cut words =
    (words.flatMap fun w => fieldsOf isZero w.toList).map String.ofList := by
  rw [cut, List.map_flatMap]
  rfl

/-- The image determines the cut words, and no more. -/
theorem image_eq_iff : image v = image w ↔ cut v = cut w := by
  have hstring : ∀ s t : List Char, String.ofList s = String.ofList t ↔ s = t := fun s t =>
    String.ofList_inj
  calc image v = image w ↔ closed v = closed w := by
        rw [image_eq_closed, image_eq_closed]
        constructor
        · intro h
          exact List.append_cancel_left ((hstring _ _).mp (Bytes.ofString_injective h))
        · exact fun h => by rw [h]
    _ ↔ fieldsOf isZero (closed v) = fieldsOf isZero (closed w) := by
        constructor
        · exact fun h => by rw [h]
        · intro h
          have hv := intercalate_fieldsOf '\x00' (closed v)
          have hw := intercalate_fieldsOf '\x00' (closed w)
          change List.intercalate ['\x00'] (fieldsOf isZero (closed v)) = closed v at hv
          rw [h] at hv
          exact hv.symm.trans hw
    _ ↔ cut v = cut w := by
        rw [fieldsOf_closed, fieldsOf_closed, List.append_left_inj, cut_eq, cut_eq]
        exact (List.map_injective_iff.mpr fun s t => (hstring s t).mp).eq_iff.symm

theorem cut_of_forall {words : List String} (h : ∀ w ∈ words, '\x00' ∉ w.toList) :
    cut words = words := by
  have hfields : ∀ w ∈ words, fields isZero w = [w] := by
    intro w hw
    have hzero : ∀ c ∈ w.toList, isZero c = false := by
      rintro c hc
      rw [isZero, decide_eq_false_iff_not]
      rintro rfl
      exact h w hw hc
    rw [fields, fieldsOf_of_forall hzero, List.map_singleton, String.ofList_toList]
  calc cut words = words.flatMap fun w => [w] := List.flatMap_congr hfields
    _ = words := List.flatMap_singleton' words

theorem ofInput_other {i : Input} {s : Searcher} (h : Searcher.ofInput i c = .ok s) :
    Searcher.ofInput i d = if d.fingerprint = c.fingerprint then
      .ok { s with analyzer := Analyzer.ofConfig d } else .error (.format .analyzerMismatch) := by
  rw [Searcher.ofInput] at h ⊢
  split at h
  · cases h
  · rename_i hsize
    rw [if_neg hsize]
    dsimp only [ok_bind] at h ⊢
    obtain ⟨j, hj, h⟩ := bind_eq_ok h
    obtain ⟨head, hhead, h⟩ := bind_eq_ok h
    obtain ⟨header, hheader, h⟩ := bind_eq_ok h
    simp only [hj, hhead, hheader, ok_bind]
    split at h
    · cases h
    · rename_i hlength
      rw [if_neg hlength]
      split at h
      · cases h
      · rename_i hprint
        obtain ⟨documents, hdocuments, h⟩ := bind_eq_ok h
        obtain ⟨words, hwords, h⟩ := bind_eq_ok h
        obtain rfl := Except.ok.inj h
        simp only [hdocuments, hwords, ok_bind]
        have hsame : (Analyzer.ofConfig c).fingerprint = header.fingerprint := by simpa using hprint
        rw [← hsame]
        by_cases heq : (Analyzer.ofConfig d).fingerprint = (Analyzer.ofConfig c).fingerprint
        · rw [if_neg (by simpa using heq)]
          exact (if_pos heq).symm
        · rw [if_pos heq]
          exact (if_neg heq).symm

theorem ofBytes_finished {calls : List Source} {chunks : List Bytes} {summary : Summary}
    (h : (offered offer calls (Builder.ofConfig c)).finish = .ok (chunks, summary)) :
    if KeyHash.hash (image d.effectiveStopWords) = KeyHash.hash (image c.effectiveStopWords) then
      ∃ s, Searcher.ofBytes chunks.flatten d = .ok s ∧ s.analyzer = Analyzer.ofConfig d
    else Searcher.ofBytes chunks.flatten d = .error (.format .analyzerMismatch) := by
  obtain ⟨⟨hd, hw⟩, hparts⟩ := (finish_eq_ok_iff _ _).mp h
  obtain ⟨rfl, -⟩ := Prod.mk.inj hparts
  have htaken := (selects_offer.run (taken_ofConfig c) calls).2
  obtain ⟨s, hopen, -⟩ := IndexReading.ofInput_spec (over_ofBytes _) (Tape.toBytes_ofBytes _) hd hw
    htaken.analyzer
  have hother := ofInput_other (d := d) hopen
  split
  · rename_i heq
    exact ⟨_, hother.trans (if_pos heq), rfl⟩
  · rename_i hne
    exact hother.trans (if_neg hne)

/-- Two sets of stop words have the same image just if their words are the same once they are cut at
zeros, so that sets of words without zeros are told apart. An index is opened for stop words whose
image has the hash of that of its own, and for no others. -/
theorem fingerprint_separates (c d : AnalyzerConfig) :
    (image c.effectiveStopWords = image d.effectiveStopWords ↔
      cut c.effectiveStopWords = cut d.effectiveStopWords) ∧
    ((∀ w ∈ c.effectiveStopWords ++ d.effectiveStopWords, '\x00' ∉ w.toList) →
      c.effectiveStopWords ≠ d.effectiveStopWords →
        image c.effectiveStopWords ≠ image d.effectiveStopWords) ∧
    ∀ (calls : List Source) (chunks : List Bytes) (summary : Summary),
      (offered offer calls (Builder.ofConfig c)).finish = .ok (chunks, summary) →
        if KeyHash.hash (image d.effectiveStopWords) =
            KeyHash.hash (image c.effectiveStopWords) then
          ∃ s, Searcher.ofBytes chunks.flatten d = .ok s ∧ s.analyzer = Analyzer.ofConfig d
        else Searcher.ofBytes chunks.flatten d = .error (.format .analyzerMismatch) := by
  refine ⟨image_eq_iff, ?_, fun calls chunks summary => ofBytes_finished⟩
  intro hzeros hne himage
  rw [List.forall_mem_append] at hzeros
  apply hne
  rw [← cut_of_forall hzeros.1, ← cut_of_forall hzeros.2]
  exact image_eq_iff.mp himage

def page : List Source := [([1], "a", "")]

theorem finished_page (c : AnalyzerConfig)
    (h : StoreImage.size (offered offer page (Builder.ofConfig c)).documentRecords < UInt32.size ∧
      StoreImage.size (offered offer page (Builder.ofConfig c)).wordRecords < UInt32.size) :
    ∃ chunks summary,
      (offered offer page (Builder.ofConfig c)).finish = .ok (chunks, summary) :=
  ⟨_, _, finish_of_lt _ h.1 h.2⟩

def single : AnalyzerConfig := ⟨false, ["a"]⟩

theorem fingerprint_separates_single :
    image ({} : AnalyzerConfig).effectiveStopWords ≠ image single.effectiveStopWords ∧
      ∃ chunks summary, (offered offer page (Builder.ofConfig {})).finish = .ok (chunks, summary) ∧
        Searcher.ofBytes chunks.flatten single = .error (.format .analyzerMismatch) := by
  obtain ⟨-, himage, hopen⟩ := fingerprint_separates {} single
  obtain ⟨chunks, summary, hfinish⟩ := finished_page {} (by decide +kernel)
  have hhash : KeyHash.hash (image single.effectiveStopWords) ≠
      KeyHash.hash (image ({} : AnalyzerConfig).effectiveStopWords) := by decide +kernel
  have hrefused := hopen page chunks summary hfinish
  rw [if_neg hhash] at hrefused
  exact ⟨himage (by decide +kernel) (by decide +kernel), chunks, summary, hfinish, hrefused⟩

def glued : AnalyzerConfig := ⟨false, ["a\x00b"]⟩

def apart : AnalyzerConfig := ⟨false, ["a", "b"]⟩

theorem effectiveStopWords_apart : apart.effectiveStopWords = ["a", "b"] := by
  have hwords : ((apart.stopWords.map Analysis.StopWords.normalize).filter (· ≠ "") ++
      if apart.useEnglish then Analysis.StopWords.english else []) = ["a", "b"] := by
    decide +kernel
  have hsorted : WordSet.ascending ["a", "b"] = ["a", "b"] :=
    List.mergeSort_of_pairwise (by decide)
  rw [AnalyzerConfig.effectiveStopWords, Analysis.StopWords.effective, hwords, WordSet.ofList,
    hsorted]
  decide

/-- A word is stopped where it is searched for, and is not where it is indexed. -/
theorem fingerprint_glued :
    glued.effectiveStopWords ≠ apart.effectiveStopWords ∧
      image glued.effectiveStopWords = image apart.effectiveStopWords ∧
        ∃ chunks summary s,
          (offered offer page (Builder.ofConfig glued)).finish = .ok (chunks, summary) ∧
            Searcher.ofBytes chunks.flatten apart = .ok s ∧
              (Analyzer.ofConfig glued).words "a" = ["a"] ∧ s.analyzer.words "a" = [] := by
  have himage : image glued.effectiveStopWords = image apart.effectiveStopWords := by
    rw [effectiveStopWords_apart]
    decide +kernel
  obtain ⟨chunks, summary, hfinish⟩ := finished_page glued (by decide +kernel)
  have hopen := ofBytes_finished (d := apart) hfinish
  rw [if_pos (by rw [himage])] at hopen
  obtain ⟨s, hs, hanalyzer⟩ := hopen
  refine ⟨?_, himage, chunks, summary, s, hfinish, hs, by decide +kernel, ?_⟩
  · rw [effectiveStopWords_apart]
    decide +kernel
  · have hstop : (Analyzer.ofConfig apart).stopWords = ["a", "b"] := effectiveStopWords_apart
    rw [hanalyzer, words_eq, hstop]
    decide +kernel

end Concordance.Proofs.Fingerprints
