import Concordance.Proofs.Completion
import Concordance.Proofs.Generations
import Concordance.Proofs.IndexRoundTrip
import Concordance.Proofs.Words

namespace Concordance.Proofs.Persistence

open Analysis (Analyzer AnalyzerConfig)
open Index Catalog Outcomes Places Frames Scripts Publication Updates Reopening UpdateFiles
open Calls Generations Deliveries Completion IndexImage IndexRoundTrip Ranking
open Words (width utf8ByteSize_ofList stripChars_of_forall)
open Storing (temporaryName temporaryLimit)

variable {c c' : AnalyzerConfig} {ds : List Document} {s t : Storage} {name : String}

theorem effectiveStopWords_eq
    (h : ∀ w, w ∈ c'.effectiveStopWords ↔ w ∈ c.effectiveStopWords) :
    c'.effectiveStopWords = c.effectiveStopWords := by
  have hordered : ∀ c : AnalyzerConfig, c.effectiveStopWords.Pairwise (· < ·) := fun c =>
    Text.WordSet.pairwise_ofList _
  have hnodup : ∀ c : AnalyzerConfig, c.effectiveStopWords.Nodup := by
    intro c
    apply (hordered c).imp
    rintro v w hlt rfl
    exact String.lt_irrefl v hlt
  have hperm := (List.perm_ext_iff_of_nodup (hnodup c') (hnodup c)).mpr h
  exact hperm.eq_of_pairwise (fun v w _ _ hvw hwv => absurd hwv (String.lt_asymm hvw))
    (hordered c') (hordered c)

theorem ofConfig_eq (h : ∀ w, w ∈ c'.effectiveStopWords ↔ w ∈ c.effectiveStopWords) :
    Analyzer.ofConfig c' = Analyzer.ofConfig c := by
  rw [Analyzer.ofConfig, Analyzer.ofConfig, AnalyzerConfig.fingerprint, AnalyzerConfig.fingerprint,
    effectiveStopWords_eq h]

theorem opening_eq (h : Analyzer.ofConfig c' = Analyzer.ofConfig c) :
    Readers.opening c' = Readers.opening c := by
  have hinput : ∀ i : Input, Searcher.ofInput i c' = Searcher.ofInput i c := by
    intro i
    rw [Searcher.ofInput, Searcher.ofInput, h]
  simp only [Readers.opening, Searcher.opening, hinput]

def searched (x : Catalog × Storage) (asked : List (Field × String × Nat)) : Catalog × Storage :=
  asked.foldl (fun x (f, query, limit) => stateOf (Serving.searchField f query limit x)) x

/-- Two catalogs give the same hits, whatever each of them has been asked before. -/
def Alike (x y : Catalog × Storage) : Prop :=
  ∀ asked asked',
    (∀ f query limit, ∃ hits x' y',
      Serving.searchField f query limit (searched x asked) = .ok hits x' ∧
        Serving.searchField f query limit (searched y asked') = .ok hits y') ∧
    ∀ query limit, ∃ hits x' y', Serving.search query limit (searched x asked) = .ok hits x' ∧
      Serving.search query limit (searched y asked') = .ok hits y'

def Holds (c : AnalyzerConfig) (ds : List Document) (x : Catalog × Storage) : Prop :=
  ∃ r : Readers, x.1.readers = some r ∧ ∀ f, Reads c ds f (r.get f) x.2

theorem holds_searched {x : Catalog × Storage} (h : Holds c ds x)
    (asked : List (Field × String × Nat)) : Holds c ds (searched x asked) := by
  rw [searched]
  induction asked generalizing x with
  | nil => exact h
  | cons q asked ih =>
      obtain ⟨f, query, limit⟩ := q
      obtain ⟨cat, s⟩ := x
      obtain ⟨r, hr, hreads⟩ := h
      obtain ⟨hits, r', hstep, -, hreads'⟩ := searchField_of_reads hr hreads f query limit
      rw [List.foldl_cons]
      apply ih
      simp only [hstep, stateOf]
      exact ⟨r', rfl, hreads'⟩

theorem alike_of_holds {x y : Catalog × Storage} (hx : Holds c ds x) (hy : Holds c ds y) :
    Alike x y := by
  intro asked asked'
  have hall : ∀ f query limit, ∃ hits x' y',
      Serving.searchField f query limit (searched x asked) = .ok hits x' ∧
        Serving.searchField f query limit (searched y asked') = .ok hits y' := by
    intro f query limit
    obtain ⟨r, hr, hreads⟩ := holds_searched hx asked
    obtain ⟨r', hr', hreads'⟩ := holds_searched hy asked'
    obtain ⟨hits, a, hsearch, hfresh, -⟩ := searchField_of_reads hr hreads f query limit
    obtain ⟨hits', a', hsearch', hfresh', -⟩ := searchField_of_reads hr' hreads' f query limit
    cases hfresh.symm.trans hfresh'
    exact ⟨hits, _, _, hsearch, hsearch'⟩
  exact ⟨hall, fun query limit => hall _ _ limit⟩

theorem isPresent_of_file? {b : Bytes} (hname : Plain name) (h : s.file? name = some b) :
    s.isPresent name = true := by
  rw [file?_eq, Option.bind_eq_some_iff] at h
  obtain ⟨loc, hp, hf⟩ := h
  exact (isPresent_iff hname).mpr ⟨loc, hp, .inl (by simp [hf])⟩

theorem isPresent_of_republished (h : Republished c ds Field.all s t) (f : Field) :
    t.isPresent f.fileName = true := by
  obtain ⟨b, -, hb⟩ := (h f).1 (by cases f <;> decide)
  exact isPresent_of_file? (plain_fileName f) hb

theorem ofFiles_eq (h : ∀ f : Field, t.isPresent f.fileName = true) (c : AnalyzerConfig) :
    Catalog.ofFiles c t = (do return ⟨c, some (← Readers.ofFiles c)⟩ : Storing Catalog) t := by
  have hall : (Field.all.all fun f => t.isPresent f.fileName) = true :=
    List.all_eq_true.mpr fun f _ => h f
  rw [Catalog.ofFiles, get_bind, if_pos hall]

theorem ofFiles_holds {cat : Catalog} {s₀ : Storage} (h : Republished c ds Field.all s₀ t)
    (hcat : Holds c ds (cat, t)) (hc : Analyzer.ofConfig c' = Analyzer.ofConfig c)
    (hu : Unhindered (Readers.opening c') t) : ∃ r u, Catalog.ofFiles c' t = .ok ⟨c', some r⟩ u ∧
      Holds c ds (⟨c', some r⟩, u) ∧ Holds c ds (cat, u) := by
  rw [opening_eq hc] at hu
  have hopen := (readers_delivers h).and_ensures (readers_spec (fileCount t) h)
  obtain ⟨-, r, u, ho, -, -, evs, hquiet, hok⟩ := hopen (.inr hu)
  have hrun : Readers.ofFiles c' t = .ok r u := by
    rw [Readers.ofFiles, opening_eq hc]
    exact run_of_outcome ho
  refine ⟨r, u, ?_, ⟨r, rfl, (hok r rfl).2⟩, ?_⟩
  · rw [ofFiles_eq (isPresent_of_republished h), bind_of_ok hrun]
    rfl
  · obtain ⟨r₀, hr₀, hreads⟩ := hcat
    exact ⟨r₀, hr₀, fun f => reads_of_changes (hreads f) hquiet.changes⟩

theorem update_holds {cat cat₁ : Catalog} {summary : UpdateSummary}
    (h : Serving.update ds (cat, s) = .ok summary (cat₁, t)) :
    Republished cat.config ds Field.all s t ∧ Holds cat.config ds (cat₁, t) ∧
      (Faultless t ↔ Faultless s) := by
  have heffect := updating_effect (Nat.zero_le (fileCount s)) cat.config ds
  have hreads := updating_reads cat.config ds s
  rw [update_eq] at h
  cases hrun : (updating cat.config ds).run s with
  | error e u =>
      rw [hrun] at h
      cases h
  | ok out u =>
      obtain ⟨indices, readers⟩ := out
      rw [hrun] at h
      cases h
      have heffect := heffect.run_ok hrun
      exact ⟨heffect.republished ⟨_, rfl⟩, ⟨readers, rfl, hreads.run_ok hrun indices readers rfl⟩,
        reliable_iff heffect.last.changes⟩

/-- After an update that succeeds, whatever the storage held before it and whatever had failed, a
catalog with the same stop words that is opened on the storage is ready and gives the hits of the
catalog that was updated. Where no call fails, an update of documents with different ids does
succeed, unless its indices are too long for the format or all names of temporary files are
taken. -/
theorem update_persists (cat : Catalog) (ds : List Document) (s : Storage) :
    (∀ summary cat₁ t, Serving.update ds (cat, s) = .ok summary (cat₁, t) →
      ∀ c : AnalyzerConfig, (∀ w, w ∈ c.effectiveStopWords ↔ w ∈ cat.config.effectiveStopWords) →
        Unhindered (Readers.opening c) t → ∃ cat₂ u, Catalog.ofFiles c t = .ok cat₂ u ∧
          cat₂.isReady = true ∧ Alike (cat₁, u) (cat₂, u)) ∧
    ((ds.map Document.id).Nodup → Unhindered (updating cat.config ds) s →
      (∀ f : Field, leftovers s f.fileName < temporaryLimit) →
        ((∃ summary y, Serving.update ds (cat, s) = .ok summary y) ↔
          ∀ f, Addressable cat.config ds f)) := by
  refine ⟨?_, update_ok_iff cat ds s⟩
  intro summary cat₁ t hupdate c hwords hu
  obtain ⟨hrepublished, hholds, -⟩ := update_holds hupdate
  obtain ⟨r, u, hopened, hr, hcat⟩ := ofFiles_holds hrepublished hholds (ofConfig_eq hwords) hu
  exact ⟨_, u, hopened, rfl, alike_of_holds hcat hr⟩

def littered : Storage := strewn .none

def blank : AnalyzerConfig := ⟨false, [" "]⟩

theorem nodup_pages : (pages.map Document.id).Nodup := List.nodup_singleton _

theorem addressable_pages (f : Field) : Addressable {} pages f :=
  (indexFile_iff nodup_pages).mp (indexFile_pages f)

theorem leftovers_littered (f : Field) : leftovers littered f.fileName < temporaryLimit :=
  leftovers_lt_iff.mpr (not_crowded_strewn .none f)

theorem faultless_littered : Faultless littered := faultless_ofBackend _

theorem unhindered_littered (ds : List Document) : Unhindered (updating {} ds) littered :=
  updating_unhindered faultless_littered fun f => leftovers_lt_iff.mp (leftovers_littered f)

theorem update_pages_littered : ∃ summary y,
    Serving.update pages (Catalog.ofConfig {}, littered) = .ok summary y :=
  (update_ok_iff (Catalog.ofConfig {}) pages littered nodup_pages (unhindered_littered pages)
    leftovers_littered).mpr addressable_pages

theorem update_persists_littered : ∃ summary cat₁ t cat₂ u,
    Serving.update pages (Catalog.ofConfig {}, littered) = .ok summary (cat₁, t) ∧
      Catalog.ofFiles blank t = .ok cat₂ u ∧ cat₂.isReady = true ∧ Alike (cat₁, u) (cat₂, u) := by
  have hwords : blank.effectiveStopWords = ({} : AnalyzerConfig).effectiveStopWords := by
    decide +kernel
  have hsame : ∀ w, w ∈ blank.effectiveStopWords ↔ w ∈ ({} : AnalyzerConfig).effectiveStopWords :=
    fun w => by rw [hwords]
  obtain ⟨hkept, hmet⟩ := update_persists (Catalog.ofConfig {}) pages littered
  obtain ⟨summary, ⟨cat₁, t⟩, hupdate⟩ :=
    (hmet nodup_pages (unhindered_littered pages) leftovers_littered).mpr addressable_pages
  obtain ⟨hrepublished, -, hfaultless⟩ := update_holds hupdate
  have hopen : Unhindered (Readers.opening blank) t := by
    rw [opening_eq (ofConfig_eq hsame)]
    exact (readers_delivers hrepublished (.inl (hfaultless.mpr faultless_littered))).1
  obtain ⟨cat₂, u, hopened, hready, halike⟩ := hkept summary cat₁ t hupdate blank hsame hopen
  exact ⟨summary, cat₁, t, cat₂, u, hupdate, hopened, hready, halike⟩

def titled (n : Nat) : List Document :=
  [{ route := "/", title := String.ofList (List.replicate n 'a') }]

theorem length_ofString (n : Nat) :
    (Bytes.ofString (String.ofList (List.replicate n 'a'))).length = n := by
  have hwidth : (Bytes.ofString (String.ofList (List.replicate n 'a'))).length =
      width (List.replicate n 'a') := utf8ByteSize_ofList _
  rw [hwidth, width, List.map_replicate, List.sum_replicate]
  exact Nat.mul_one n

theorem stored_titled {n : Nat} (hn : 0 < n) {d : Document} (hd : d ∈ titled n) :
    d.stored = String.ofList (List.replicate n 'a') := by
  obtain rfl := List.mem_singleton.mp hd
  have htrim : Text.trim (String.ofList (List.replicate n 'a')) =
      String.ofList (List.replicate n 'a') := by
    rw [Text.trim, Text.strip, String.toList_ofList, stripChars_of_forall]
    intro c hc
    rw [List.eq_of_mem_replicate hc]
    decide +kernel
  have hne : String.ofList (List.replicate n 'a') ≠ "" := by
    intro hempty
    have hlength := congrArg (fun s => s.toList.length) hempty
    rw [String.toList_ofList, List.length_replicate] at hlength
    exact absurd hlength (by simp; omega)
  simp only [Document.stored, htrim, if_neg hne]

theorem nodup_titled (n : Nat) : ((titled n).map Document.id).Nodup := List.nodup_singleton _

theorem not_addressable_titled {n : Nat} (hn : UInt32.size ≤ n) (c : AnalyzerConfig) (f : Field) :
    ¬ Addressable c (titled n) f := by
  intro hsmall
  obtain ⟨b, hb, htaken⟩ : ∃ b, (Builder.ofConfig c).addAll (sources f (titled n)) = .ok b ∧
      Taken (Analyzer.ofConfig c) (sources f (titled n)) b :=
    (taken_ofConfig c).addAll (nodup_sources (nodup_titled n) f)
  obtain ⟨d, hd⟩ : ∃ d, d ∈ titled n := ⟨_, List.mem_cons_self⟩
  have hsource : (Bytes.ofString d.id, f.project d, d.stored) ∈ sources f (titled n) :=
    List.mem_map.mpr ⟨d, hd, rfl⟩
  have hrecord := length_record_le (record_mem htaken hsource)
  simp only [Source.stored] at hrecord
  have hpos : 0 < n := Nat.lt_of_lt_of_le (by decide) hn
  rw [stored_titled hpos hd, length_ofString] at hrecord
  have hdata := dataSize_le_size b.documentRecords
  have hlt := (hsmall b hb).1
  omega

theorem update_titled {n : Nat} (hn : UInt32.size ≤ n) : ¬ ∃ summary y,
    Serving.update (titled n) (Catalog.ofConfig {}, littered) = .ok summary y := by
  rw [update_ok_iff (Catalog.ofConfig {}) _ _ (nodup_titled n) (unhindered_littered (titled n))
    leftovers_littered]
  exact fun h => not_addressable_titled hn {} .routes (h .routes)

def shut : FaultPlan :=
  ⟨fun _ call name => call = .openFile && name = "routes.idx", fun _ _ _ => false⟩

theorem ofFiles_shut (h : ∀ f : Field, t.isPresent f.fileName = true) (c : AnalyzerConfig) :
    ∃ u, Catalog.ofFiles c { t with plan := shut } =
      .error (.storage (.refused .openFile "routes.idx")) u := by
  have hshut : shut.refuses t.clock .openFile "routes.idx" = true := rfl
  have hrefused := openInput_refused (s := { t with plan := shut }) hshut
  have hopen : Ensures (Readers.opening c) { t with plan := shut } fun _ x _ =>
      x = .error (.storage (.refused .openFile "routes.idx")) := by
    rw [Readers.opening, ensures_bind_iff]
    exact (ensures_call_bind_error hrefused _).mpr rfl
  cases hrun : (Readers.opening c).run { t with plan := shut } with
  | ok r u => cases hopen.run_ok hrun
  | error e u =>
      obtain rfl := Except.error.inj (hopen.run_error hrun)
      have hreaders : Readers.ofFiles c { t with plan := shut } = .error _ u := hrun
      exact ⟨u, (ofFiles_eq (t := { t with plan := shut }) h c).trans (bind_of_error hreaders _)⟩

/-- What has been published is not opened while a call that opens a file is refused. No update
succeeds for a document with a title of four gibibytes, though no call fails. -/
theorem update_persists_unless :
    (∃ summary cat₁ t u, Serving.update pages (Catalog.ofConfig {}, littered) =
        .ok summary (cat₁, t) ∧ Catalog.ofFiles {} { t with plan := shut } =
          .error (.storage (.refused .openFile "routes.idx")) u) ∧
    ((titled 4294967296).map Document.id).Nodup ∧
    Unhindered (updating {} (titled 4294967296)) littered ∧
    (∀ f : Field, leftovers littered f.fileName < temporaryLimit) ∧
    ¬ ∃ summary y, Serving.update (titled 4294967296) (Catalog.ofConfig {}, littered) =
      .ok summary y := by
  refine ⟨?_, nodup_titled _, unhindered_littered _, leftovers_littered,
    update_titled (Nat.le_refl _)⟩
  obtain ⟨summary, ⟨cat₁, t⟩, hupdate⟩ := update_pages_littered
  obtain ⟨u, hu⟩ := ofFiles_shut (isPresent_of_republished (update_holds hupdate).1) {}
  exact ⟨summary, cat₁, t, u, hupdate, hu⟩

end Concordance.Proofs.Persistence
