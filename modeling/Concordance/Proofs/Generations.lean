import Concordance.Proofs.Completion

namespace Concordance.Proofs.Generations

open Analysis (Analyzer AnalyzerConfig)
open BlockStore (View)
open Index Catalog Outcomes Cursors Frames Calls Scripts Updates Reopening UpdateFiles
open Deliveries Completion
open IndexImage IndexReading StoreReading

variable {c : AnalyzerConfig} {ds : List Document} {f : Field} {s t : Storage}

/-- What a search finds in an index that is built for it, of each document's text for the field
under the document's id and with its stored value. -/
def freshHits (c : AnalyzerConfig) (ds : List Document) (f : Field) (query : String) (limit : Nat) :
    Except Error (List Hit) := do
  let texts := ds.map fun d => (Bytes.ofString d.id, f.project d, d.stored)
  let b ← ((Builder.ofConfig c).addAll texts).mapError .index
  let (parts, _) ← b.finish.mapError .format
  let r ← Searcher.ofBytes parts.flatten c
  match Searcher.search query limit r with
  | .ok hits _ => return hits
  | .error e _ => throw e

theorem freshHits_of_built {b : Builder} (h : Built c ds f b) (query : String) (limit : Nat) :
    freshHits c ds f query limit = .ok (answer b query limit) := by
  obtain ⟨summary, hfinish⟩ := h.finished
  obtain ⟨hd, hw⟩ := small_of_finish b hfinish
  obtain ⟨r, hopen, hserves⟩ := IndexReading.ofInput_spec (over_ofBytes (parts b).flatten)
    (Tape.toBytes_ofBytes _) hd hw (analyzer_addAll h.added)
  obtain ⟨r', hsearch, -⟩ := search_spec hserves query limit
  have hbytes : Searcher.ofBytes (parts b).flatten c = .ok r := by
    rw [Searcher.ofBytes]
    exact hopen
  have hadded : (Builder.ofConfig c).addAll
      (ds.map fun d => (Bytes.ofString d.id, f.project d, d.stored)) = .ok b := h.added
  rw [freshHits, hadded]
  simp only [mapError_ok, ok_bind]
  rw [hfinish, mapError_ok, ok_bind, hbytes, ok_bind, hsearch]
  rfl

theorem refresh_of_shows {p : Tape} {rs : List BlockStore.Record} {v : View} (h : Shows p rs v)
    {content : Nat → Packed} (hfile : ∀ k, p.file = some k → content k = p.content) :
    v.refresh content = v := by
  obtain ⟨pos, hat⟩ := h.reader
  rw [View.refresh, hat.tape.refresh_eq hfile]

theorem search_of_reads {r : Searcher} (h : Reads c ds f r s) (query : String) (limit : Nat) :
    ∃ hits r', Searcher.search query limit (r.refresh s.content) = .ok hits r' ∧
      freshHits c ds f query limit = .ok hits ∧ Reads c ds f r' s := by
  obtain ⟨b, p, hbuilt, hserves, hpinned⟩ := h
  have hfile : ∀ k, p.file = some k → s.content k = p.content := fun k hk => (hpinned k hk).2
  have hrefresh : r.refresh s.content = r := by
    rw [Searcher.refresh, refresh_of_shows hserves.documents hfile,
      refresh_of_shows hserves.words hfile]
  obtain ⟨r', hsearch, hserves'⟩ := search_spec hserves query limit
  rw [hrefresh]
  exact ⟨_, r', hsearch, freshHits_of_built hbuilt query limit, b, p, hbuilt, hserves', hpinned⟩

theorem reads_of_changes {P : Set Location} {r : Searcher} (h : Reads c ds f r s)
    (hc : Changes (fileCount s) P s t) : Reads c ds f r t := by
  obtain ⟨b, p, hbuilt, hserves, hpinned⟩ := h
  exact ⟨b, p, hbuilt, hserves, hpinned.changes (Nat.le_refl _) hc⟩

theorem updating_reads (c : AnalyzerConfig) (ds : List Document) (s : Storage) :
    Ensures (updating c ds) s fun _ x t =>
      ∀ out readers, x = .ok (out, readers) → ∀ f, Reads c ds f (Readers.get readers f) t := by
  rw [updating, ensures_bind_iff]
  apply (publishing_effect (Nat.zero_le (fileCount s)) c ds).imp
  rintro evs (e | out) t h
  · rintro out readers ⟨⟩
  · dsimp only
    rw [ensures_bind_iff]
    apply (readers_spec 0 (h.republished ⟨out, rfl⟩)).imp
    rintro evs' (e | readers) u ⟨-, hreads⟩
    · rintro out readers ⟨⟩
    · dsimp only
      rw [ensures_pure_iff]
      rintro _ _ ⟨⟩
      exact (hreads readers rfl).2

inductive Operation
  | update (ds : List Document)
  | search (f : Field) (query : String) (limit : Nat)

/-- A catalog with its storage, and the documents of the last update that succeeded. -/
structure Served where
  documents : Option (List Document)
  state : Catalog × Storage

def Served.step (x : Served) : Operation → Served
  | .update ds =>
      match Serving.update ds x.state with
      | .ok _ state => ⟨some ds, state⟩
      | .error _ state => { x with state := state }
  | .search f query limit => { x with state := stateOf (Serving.searchField f query limit x.state) }

def Served.after (c : AnalyzerConfig) (s : Storage) (ops : List Operation) : Served :=
  ops.foldl Served.step ⟨none, Catalog.ofConfig c, s⟩

theorem step_of_ok {x : Served} {summary : UpdateSummary} {y : Catalog × Storage}
    (h : Serving.update ds x.state = .ok summary y) : x.step (.update ds) = ⟨some ds, y⟩ := by
  simp only [Served.step, h]

theorem step_of_error {x : Served} {e : Error} {y : Catalog × Storage}
    (h : Serving.update ds x.state = .error e y) :
    x.step (.update ds) = { x with state := y } := by
  simp only [Served.step, h]

structure Coherent (c : AnalyzerConfig) (x : Served) : Prop where
  config : x.state.1.config = c
  unready : x.documents = none → x.state.1.readers = none
  reads : ∀ ds, x.documents = some ds →
    ∃ r : Readers, x.state.1.readers = some r ∧ ∀ f, Reads c ds f (r.get f) x.state.2

theorem get_set (r : Readers) (f g : Field) (a : Searcher) :
    (r.set f a).get g = if g = f then a else r.get g := by
  cases f <;> cases g <;> rfl

theorem searchField_of_unready {cat : Catalog} (h : cat.readers = none) (f : Field) (query : String)
    (limit : Nat) (s : Storage) :
    Serving.searchField f query limit (cat, s) = .ok [] (cat, s) := by
  rw [Serving.searchField, h]

/-- A search gives the hits of a new index of the same documents, and leaves readers of them. -/
theorem searchField_of_reads {cat : Catalog} {r : Readers} (h : cat.readers = some r)
    (hr : ∀ g, Reads c ds g (r.get g) s) (f : Field) (query : String) (limit : Nat) :
    ∃ hits r', Serving.searchField f query limit (cat, s) =
        .ok hits ({ cat with readers := some r' }, s) ∧
      freshHits c ds f query limit = .ok hits ∧ ∀ g, Reads c ds g (r'.get g) s := by
  obtain ⟨hits, a, hsearch, hfresh, ha⟩ := search_of_reads (hr f) query limit
  refine ⟨hits, r.set f a, by simp only [Serving.searchField, h, hsearch], hfresh, fun g => ?_⟩
  rw [get_set]
  split
  · rename_i hg
    rw [hg]
    exact ha
  · exact hr g

theorem coherent_update {x : Served} (h : Coherent c x) (ds : List Document) :
    Coherent c (x.step (.update ds)) := by
  obtain ⟨documents, cat, s⟩ := x
  have hconfig : cat.config = c := h.config
  have heffect := updating_effect (Nat.le_refl (fileCount s)) c ds
  have hreads := updating_reads c ds s
  have hupdate := update_eq cat ds s
  rw [hconfig] at hupdate
  cases hrun : (updating c ds).run s with
  | ok out t =>
      obtain ⟨indices, readers⟩ := out
      rw [hrun] at hupdate
      rw [step_of_ok (x := ⟨documents, cat, s⟩) hupdate]
      refine ⟨rfl, by rintro ⟨⟩, ?_⟩
      rintro ds' ⟨⟩
      exact ⟨readers, rfl, hreads.run_ok hrun indices readers rfl⟩
  | error e t =>
      rw [hrun] at hupdate
      rw [step_of_error (x := ⟨documents, cat, s⟩) hupdate]
      have hlast := (heffect.run_error hrun).last.changes
      refine ⟨hconfig, h.unready, fun ds' hds => ?_⟩
      obtain ⟨r, hr, hr'⟩ := h.reads ds' hds
      exact ⟨r, hr, fun f => reads_of_changes (hr' f) hlast⟩

theorem coherent_search {x : Served} (h : Coherent c x) (f : Field) (query : String)
    (limit : Nat) : Coherent c (x.step (.search f query limit)) := by
  obtain ⟨documents, cat, s⟩ := x
  cases documents with
  | none =>
      have hstep := searchField_of_unready (h.unready rfl) f query limit s
      simp only [Served.step, hstep, stateOf]
      exact h
  | some ds =>
      obtain ⟨r, hr, hreads⟩ := h.reads ds rfl
      obtain ⟨hits, r', hstep, -, hreads'⟩ := searchField_of_reads hr hreads f query limit
      simp only [Served.step, hstep, stateOf]
      refine ⟨h.config, by rintro ⟨⟩, ?_⟩
      rintro ds' ⟨⟩
      exact ⟨r', rfl, hreads'⟩

theorem coherent_step {x : Served} (h : Coherent c x) (op : Operation) :
    Coherent c (x.step op) := by
  cases op with
  | update ds => exact coherent_update h ds
  | search f query limit => exact coherent_search h f query limit

theorem coherent_after (c : AnalyzerConfig) (s : Storage) (ops : List Operation) :
    Coherent c (Served.after c s ops) := by
  have hnew : Coherent c ⟨none, Catalog.ofConfig c, s⟩ :=
    ⟨rfl, fun _ => rfl, by rintro ds ⟨⟩⟩
  rw [Served.after]
  generalize (⟨none, Catalog.ofConfig c, s⟩ : Served) = x at hnew ⊢
  induction ops generalizing x with
  | nil => exact hnew
  | cons op ops ih => exact ih (x.step op) (coherent_step hnew op)

theorem searchField_of_coherent {x : Served} (h : Coherent c x) (f : Field) (query : String)
    (limit : Nat) : ∃ hits y, Serving.searchField f query limit x.state = .ok hits y ∧
      match x.documents with
      | none => hits = []
      | some ds => freshHits c ds f query limit = .ok hits := by
  obtain ⟨documents, cat, t⟩ := x
  cases documents with
  | none => exact ⟨[], _, searchField_of_unready (h.unready rfl) f query limit t, rfl⟩
  | some ds =>
      obtain ⟨r, hr, hreads⟩ := h.reads ds rfl
      obtain ⟨hits, r', hstep, hfresh, -⟩ := searchField_of_reads hr hreads f query limit
      exact ⟨hits, _, hstep, hfresh⟩

theorem after_append (s : Storage) (ops : List Operation) (op : Operation) :
    Served.after c s (ops ++ [op]) = (Served.after c s ops).step op := by
  rw [Served.after, Served.after, List.foldl_append]
  rfl

/-- After any updates and searches of a new catalog, whichever of their calls fail, every search
succeeds and finds what an index of the documents of the last successful update gives, or nothing
if no update has succeeded. An update that fails changes the result of no search. -/
theorem search_after (c : AnalyzerConfig) (s : Storage) (ops : List Operation) :
    (∀ f query limit, ∃ hits y,
      Serving.searchField f query limit (Served.after c s ops).state = .ok hits y ∧
        match (Served.after c s ops).documents with
        | none => hits = []
        | some ds => freshHits c ds f query limit = .ok hits) ∧
    ∀ ds e y, Serving.update ds (Served.after c s ops).state = .error e y →
      ∀ f query limit, ∃ hits z z',
        Serving.searchField f query limit (Served.after c s ops).state = .ok hits z ∧
          Serving.searchField f query limit y = .ok hits z' := by
  have h := coherent_after c s ops
  refine ⟨fun f query limit => searchField_of_coherent h f query limit, ?_⟩
  intro ds e y hfail f query limit
  have h' := coherent_after c s (ops ++ [.update ds])
  rw [after_append, step_of_error hfail] at h'
  obtain ⟨hits, z, hz, hhits⟩ := searchField_of_coherent h f query limit
  obtain ⟨hits', z', hz', hhits'⟩ := searchField_of_coherent h' f query limit
  have hsame : hits' = hits := by
    dsimp only at hhits'
    cases hdocs : (Served.after c s ops).documents with
    | none =>
        simp only [hdocs] at hhits hhits'
        rw [hhits, hhits']
    | some ds' =>
        simp only [hdocs] at hhits hhits'
        rw [hhits] at hhits'
        exact (Except.ok.inj hhits').symm
  exact ⟨hits, z, z', hz, hsame ▸ hz'⟩

theorem addAll_twice (c : AnalyzerConfig) (f : Field) (d : Document) :
    (Builder.ofConfig c).addAll (sources f [d, d]) =
      .error (.duplicateDocument (Bytes.ofString d.id)) := by
  obtain ⟨b, hadd, hheld⟩ : ∃ b,
      (Builder.ofConfig c).add (Bytes.ofString d.id) (f.project d) d.stored = .ok b ∧
        b.entries.contains (Bytes.ofString d.id) = true := by
    have hnew : (Builder.ofConfig c).entries.contains (Bytes.ofString d.id) = false :=
      Std.ExtTreeMap.contains_empty
    refine ⟨_, by rw [Builder.add, if_neg (by simp [hnew])], ?_⟩
    exact Std.ExtTreeMap.contains_insert_self
  have hagain : b.add (Bytes.ofString d.id) (f.project d) d.stored =
      .error (.duplicateDocument (Bytes.ofString d.id)) := by
    rw [Builder.add, if_pos hheld]
  simp only [Builder.addAll, sources, List.map_cons, List.foldlM_cons, hadd, ok_bind, hagain]
  rfl

theorem update_of_refused {fault : IndexFault} {cat : Catalog}
    (h : ∀ f, (Builder.ofConfig cat.config).addAll (sources f ds) = .error fault) (s : Storage) :
    Serving.update ds (cat, s) = .error (.index fault) (cat, s) := by
  have hbuilding : ∀ f, building cat.config ds f = .fail (.index fault) := by
    intro f
    rw [building, h f]
    rfl
  have hupdating : updating cat.config ds = .fail (.index fault) := by
    simp only [updating, publishing, Field.all, buildingAll, hbuilding]
    rfl
  rw [update_eq, hupdating]
  rfl

def vacant : Storage := .ofBackend (.memory ∅)

theorem update_pages : ∃ summary y,
    Serving.update pages (Catalog.ofConfig {}, vacant) = .ok summary y := by
  have hfree : ∀ f : Field, ¬ Crowded vacant (.createTemporary f.fileName) := fun f =>
    not_crowded (i := 0) (by decide) rfl
  have hdelivers : Delivers Set.univ (updating {} pages) vacant fun _ _ => True :=
    updating_delivers indexFile_pages hfree
  obtain ⟨-, out, t, ho, -⟩ := hdelivers (.inl (faultless_ofBackend ∅))
  exact (update_eq_ok_iff _ _ _).mpr ⟨out, t, ho⟩

theorem freshHits_pages :
    freshHits {} pages .content "fox" 5 = .ok [⟨Bytes.ofString "/", Bytes.ofString "?", 1⟩] := by
  obtain ⟨file, hfile⟩ := indexFile_pages .content
  obtain ⟨b, hbuilt, -⟩ := built_of_indexFile hfile
  have hanswer : (match (Builder.ofConfig {}).addAll (sources .content pages) with
      | .ok b => answer b "fox" 5
      | .error _ => []) = [⟨Bytes.ofString "/", Bytes.ofString "?", 1⟩] := by decide +kernel
  rw [hbuilt.added] at hanswer
  rw [freshHits_of_built hbuilt]
  exact congrArg Except.ok hanswer

/-- Documents are published, an update with the same ones twice fails, and they are still found. -/
theorem search_after_refused : ∃ cat t z,
    Served.after {} vacant [.update pages] = ⟨some pages, cat, t⟩ ∧
      Serving.update (pages ++ pages) (cat, t) =
        .error (.index (.duplicateDocument (Bytes.ofString "/"))) (cat, t) ∧
      Serving.searchField .content "fox" 5 (cat, t) =
        .ok [⟨Bytes.ofString "/", Bytes.ofString "?", 1⟩] z := by
  obtain ⟨summary, ⟨cat, t⟩, hupdate⟩ := update_pages
  have hafter : Served.after {} vacant [.update pages] = ⟨some pages, cat, t⟩ := by
    rw [Served.after, List.foldl_cons, List.foldl_nil]
    exact step_of_ok hupdate
  have hconfig : cat.config = {} := by
    have h := (coherent_after {} vacant [.update pages]).config
    rwa [hafter] at h
  have hid : Bytes.ofString "/" = Bytes.ofString ({ route := "/", title := "?", body := "fox" } :
      Document).id := by decide +kernel
  have hfail : Serving.update (pages ++ pages) (cat, t) =
      .error (.index (.duplicateDocument (Bytes.ofString "/"))) (cat, t) := by
    rw [hid]
    exact update_of_refused (fun f => addAll_twice _ f _) t
  obtain ⟨hall, hkept⟩ := search_after {} vacant [.update pages]
  rw [hafter] at hall hkept
  dsimp only at hall hkept
  obtain ⟨hits, y, hy, hfresh⟩ := hall .content "fox" 5
  rw [freshHits_pages, Except.ok.injEq] at hfresh
  subst hfresh
  obtain ⟨hits', z, z', hz, hz'⟩ := hkept _ _ _ hfail .content "fox" 5
  cases hy.symm.trans hz
  exact ⟨cat, t, z', hafter, hfail, hz'⟩

end Concordance.Proofs.Generations
