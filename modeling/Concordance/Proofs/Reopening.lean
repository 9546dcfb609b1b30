import Concordance.Proofs.IndexReading
import Concordance.Proofs.Updates

namespace Concordance.Proofs.Reopening

open Analysis (Analyzer AnalyzerConfig)
open Index Catalog Cursors Places Frames Calls Scripts Publication Updates
open IndexImage IndexReading

variable {n : Nat} {c : AnalyzerConfig} {ds : List Document} {f : Field} {s t : Storage}

theorem analyzer_add {b b' : Builder} {id : Bytes} {indexed stored : String}
    (h : b.add id indexed stored = .ok b') : b'.analyzer = b.analyzer := by
  rw [Builder.add] at h
  split at h
  · cases h
  · cases h
    rfl

theorem analyzer_addAll {b b' : Builder} {docs : List (Bytes × String × String)}
    (h : b.addAll docs = .ok b') : b'.analyzer = b.analyzer := by
  induction docs generalizing b with
  | nil =>
      cases h
      rfl
  | cons d docs ih =>
      obtain ⟨id, indexed, stored⟩ := d
      rw [Builder.addAll, List.foldlM_cons] at h
      cases hadd : b.add id indexed stored with
      | error e =>
          simp only [hadd, Outcomes.error_bind] at h
          cases h
      | ok b'' =>
          simp only [hadd, Outcomes.ok_bind] at h
          rw [ih h, analyzer_add hadd]

structure Built (c : AnalyzerConfig) (ds : List Document) (f : Field) (b : Builder) : Prop where
  added : (Builder.ofConfig c).addAll (sources f ds) = .ok b
  finished : ∃ summary, b.finish = .ok (parts b, summary)

theorem built_of_indexFile {file : Bytes} (h : indexFile c ds f = some file) :
    ∃ b, Built c ds f b ∧ file = (parts b).flatten := by
  rw [indexFile] at h
  cases hadd : (Builder.ofConfig c).addAll (sources f ds) with
  | error e =>
      rw [hadd] at h
      cases h
  | ok b =>
      simp only [hadd] at h
      cases hfinish : b.finish with
      | error e =>
          rw [hfinish] at h
          cases h
      | ok out =>
          have hout := ((finish_eq_ok_iff b out).mp hfinish).2
          rw [hfinish, hout] at h
          exact ⟨b, ⟨hadd, _, hout ▸ hfinish⟩, (Option.some.inj h).symm⟩

theorem indexFile_of_lt {b : Builder} (hb : (Builder.ofConfig c).addAll (sources f ds) = .ok b)
    (hd : StoreImage.size b.documentRecords < UInt32.size)
    (hw : StoreImage.size b.wordRecords < UInt32.size) :
    indexFile c ds f = some (parts b).flatten := by
  rw [indexFile, hb]
  simp only [finish_of_lt b hd hw]
  rfl

/-- The searcher is over the index of the documents under a field, in a file that the storage still
holds. -/
def Reads (c : AnalyzerConfig) (ds : List Document) (f : Field) (r : Searcher) (s : Storage) :
    Prop :=
  ∃ b p, Built c ds f b ∧ Serves p b r ∧ Pinned p s

theorem reads_of_backend {r : Searcher} (h : Reads c ds f r s) (hb : t.backend = s.backend) :
    Reads c ds f r t := by
  obtain ⟨b, p, hbuilt, hserves, hpinned⟩ := h
  exact ⟨b, p, hbuilt, hserves, hpinned.of_backend hb⟩

theorem opening_cases {file : Bytes} (n : Nat) (hfile : indexFile c ds f = some file)
    (hs : s.file? f.fileName = some file) : Stops n (.openInput f.fileName) s ∨
      ∃ i r t, (Request.openInput f.fileName).answer s = (.ok i, t) ∧
        Searcher.ofInput i c = .ok r ∧ t.backend = s.backend ∧ t.plan = s.plan ∧
        Reads c ds f r t := by
  obtain ⟨b, hbuilt, rfl⟩ := built_of_indexFile hfile
  rw [file?_eq, Option.bind_eq_some_iff] at hs
  obtain ⟨loc, hp, hf⟩ := hs
  obtain ⟨summary, hfinish⟩ := hbuilt.finished
  obtain ⟨hd, hw⟩ := small_of_finish b hfinish
  have hanalyzer : b.analyzer = Analyzer.ofConfig c := analyzer_addAll hbuilt.added
  apply (openInput_cases n hp hf).imp And.left
  rintro ⟨i, p, t, ha, hback, hplan, hover, hbytes, hpin⟩
  obtain ⟨r, hr, hserves⟩ := ofInput_spec hover hbytes hd hw hanalyzer
  exact ⟨i, r, t, ha, hr, hback, hplan, b, p, hbuilt, hserves, hpin⟩

theorem opening_spec {file : Bytes} (n : Nat) (hfile : indexFile c ds f = some file)
    (hs : s.file? f.fileName = some file) :
    Ensures (Searcher.opening f.fileName c) s fun evs x t => Quiet n ∅ s evs t ∧
      ∀ r, x = .ok r → t.backend = s.backend ∧ t.plan = s.plan ∧ Reads c ds f r t := by
  rw [Searcher.opening]
  rcases opening_cases n hfile hs with
    ⟨e, t, ha, hc, -⟩ | ⟨i, r, t, ha, hr, hback, hplan, hreads⟩
  · rw [ensures_call_bind_error ha]
    refine ⟨Quiet.call hc rfl, ?_⟩
    intro r hr
    cases hr
  · rw [ensures_call_bind ha, ensures_ofExcept_iff, hr]
    refine ⟨Quiet.call (changes_of_backend hback hplan) rfl, ?_⟩
    intro r' hr'
    cases hr'
    exact ⟨hback, hplan, hreads⟩

theorem file?_of_backend (hb : t.backend = s.backend) (name : String) :
    t.file? name = s.file? name := by
  rw [Storage.file?, Storage.file?, hb]

theorem readers_spec (n : Nat) {s₀ : Storage} (h : Republished c ds Field.all s₀ s) :
    Ensures (Readers.opening c) s fun evs x t => Quiet n ∅ s evs t ∧
      ∀ r : Readers, x = .ok r → t.plan = s.plan ∧ ∀ f, Reads c ds f (r.get f) t := by
  have hfile : ∀ f : Field, ∃ b, indexFile c ds f = some b ∧ s.file? f.fileName = some b :=
    fun f => (h f).1 (by cases f <;> decide)
  obtain ⟨a, ha, hsa⟩ := hfile .routes
  obtain ⟨b, hb, hsb⟩ := hfile .tags
  obtain ⟨d, hd, hsd⟩ := hfile .content
  rw [Readers.opening, ensures_bind_iff]
  apply (opening_spec n ha hsa).imp
  rintro evs (e | r) t ⟨hquiet, hok⟩
  · exact ⟨hquiet, by rintro r ⟨⟩⟩
  obtain ⟨hback, hplan, hreads⟩ := hok r rfl
  dsimp only
  rw [ensures_bind_iff]
  rw [← file?_of_backend hback] at hsb
  apply (opening_spec n hb hsb).imp
  rintro evs' (e | r') u ⟨hquiet', hok'⟩
  · exact ⟨hquiet.append hquiet', by rintro r ⟨⟩⟩
  obtain ⟨hback', hplan', hreads'⟩ := hok' r' rfl
  dsimp only
  rw [ensures_bind_iff]
  rw [← file?_of_backend hback, ← file?_of_backend hback'] at hsd
  apply (opening_spec n hd hsd).imp
  rintro evs'' (e | r'') v ⟨hquiet'', hok''⟩
  · exact ⟨hquiet.append (hquiet'.append hquiet''), by rintro r ⟨⟩⟩
  obtain ⟨hback'', hplan'', hreads''⟩ := hok'' r'' rfl
  dsimp only
  rw [ensures_pure_iff, List.append_nil]
  refine ⟨hquiet.append (hquiet'.append hquiet''), ?_⟩
  rintro _ ⟨⟩
  refine ⟨by rw [hplan'', hplan', hplan], fun f => ?_⟩
  cases f with
  | routes => exact reads_of_backend (reads_of_backend hreads hback') hback''
  | tags => exact reads_of_backend hreads' hback''
  | content => exact hreads''

end Concordance.Proofs.Reopening
