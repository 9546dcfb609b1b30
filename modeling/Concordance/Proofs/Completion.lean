import Mathlib.Data.List.Count
import Concordance.Proofs.Ranking
import Concordance.Proofs.UpdateFiles

namespace Concordance.Proofs.Completion

open Analysis (Analyzer AnalyzerConfig)
open Index Catalog Outcomes Places Frames Calls Outputs Scripts Publication Updates Reopening
open UpdateFiles Deliveries IndexImage Ranking
open Storing (temporaryName temporaryLimit)

variable {n : Nat} {P : Set Location} {c : AnalyzerConfig} {ds : List Document} {f g : Field}
  {s t : Storage} {loc : Location} {acc bytes : Bytes} {o : Output} {b : Builder} {p : Pending}
  {ps : List (Field × Pending)} {name : String}

theorem publishing_delivers (hfile : ∀ f, ∃ file, indexFile c ds f = some file)
    (hfree : ∀ f : Field, ¬ Crowded s (.createTemporary f.fileName)) :
    Delivers Set.univ (publishing c ds) s fun _ _ => True := by
  have hfields : Field.all.Nodup := by decide
  have hbuild := (buildingAll_delivers hfields (fun f _ => hfile f) (Set.subset_univ _)
    fun f _ => hfree f).and_ensures
    (buildingAll_spec (Nat.zero_le (fileCount s)) c ds Field.all)
  rw [publishing]
  apply hbuild.bind
  rintro outcomes t ⟨hall, evs, outcomes', ⟨⟩, hmap, -, hawait, -⟩
  simp only [firstError_eq_none hall]
  apply publishingAll_delivers hawait
  · rw [map_finished (firstError_eq_none hall), hmap]
    exact hfields
  · exact fun f _ => Set.mem_univ _

theorem opening_delivers {file : Bytes} (hfile : indexFile c ds f = some file)
    (hs : s.file? f.fileName = some file) :
    Delivers Set.univ (Searcher.opening f.fileName c) s fun _ t => t.backend = s.backend := by
  rw [Searcher.opening]
  rcases opening_cases 0 hfile hs with hstops | ⟨i, r, t, ha, hr, hback, hplan, -⟩
  · exact delivers_of_stops hstops (Set.subset_univ _) id _
  · have hc : Changes 0 ∅ s t := changes_of_backend hback hplan
    exact delivers_call_bind ha trivial hc (delivers_ofExcept hr hback)

theorem readers_delivers {s₀ : Storage} (h : Republished c ds Field.all s₀ s) :
    Delivers Set.univ (Readers.opening c) s fun _ _ => True := by
  have hfile : ∀ f : Field, ∃ b, indexFile c ds f = some b ∧ s.file? f.fileName = some b :=
    fun f => (h f).1 (by cases f <;> decide)
  obtain ⟨a, ha, hsa⟩ := hfile .routes
  obtain ⟨b, hb, hsb⟩ := hfile .tags
  obtain ⟨d, hd, hsd⟩ := hfile .content
  rw [Readers.opening]
  apply (opening_delivers ha hsa).bind
  intro r t hback
  rw [← file?_of_backend hback] at hsb hsd
  apply (opening_delivers hb hsb).bind
  intro r' u hback'
  rw [← file?_of_backend hback'] at hsd
  apply (opening_delivers hd hsd).bind
  intro r'' v _
  exact delivers_pure trivial

theorem updating_delivers (hfile : ∀ f, ∃ file, indexFile c ds f = some file)
    (hfree : ∀ f : Field, ¬ Crowded s (.createTemporary f.fileName)) :
    Delivers Set.univ (updating c ds) s fun _ _ => True := by
  have hpublish := (publishing_delivers hfile hfree).and_ensures
    (publishing_effect (Nat.zero_le (fileCount s)) c ds)
  rw [updating]
  apply hpublish.bind
  rintro out t ⟨-, evs, heffect⟩
  apply (readers_delivers (heffect.republished ⟨out, rfl⟩)).bind
  intro readers u _
  exact delivers_pure trivial

theorem building_unhindered (hs : Faultless s) (hfree : ¬ Crowded s (.createTemporary f.fileName)) :
    Unhindered (building c ds f) s := by
  rw [building]
  cases (Builder.ofConfig c).addAll (sources f ds) with
  | error e => exact trivial
  | ok b => exact preparing_unhindered hs hfree

theorem buildingAll_unhindered {fs : List Field} (hnodup : fs.Nodup) (hs : Faultless s)
    (hfree : ∀ f ∈ fs, ¬ Crowded s (.createTemporary f.fileName)) :
    Unhindered (buildingAll c ds fs) s := by
  induction fs generalizing s with
  | nil => exact trivial
  | cons f fs ih =>
      rw [List.nodup_cons] at hnodup
      rw [List.forall_mem_cons] at hfree
      obtain ⟨hquiet, -⟩ := building_spec (Nat.zero_le (fileCount s)) c ds f
      rw [buildingAll, unhindered_bind_iff, unhindered_attempt_iff]
      refine ⟨building_unhindered hs hfree.1, ?_⟩
      intro x t ho
      rw [outcome_attempt] at ho
      cases ho
      rw [unhindered_bind_iff]
      refine ⟨ih hnodup.2 ((reliable_iff hquiet.changes).mpr hs) ?_, fun _ _ _ => trivial⟩
      intro g hg
      have hne : f ≠ g := fun heq => hnodup.1 (heq ▸ hg)
      rw [crowded_iff hquiet.changes hne]
      exact hfree.2 g hg

theorem discardingAll_delivers (hw : Awaiting c ds ps s) (hnodup : (ps.map (·.1)).Nodup) :
    Delivers Set.univ (discardingAll ps) s fun _ _ => True := by
  induction ps generalizing s with
  | nil => exact delivers_pure trivial
  | cons x ps ih =>
      obtain ⟨⟨hname, loc, b, -, hcomplete⟩, hps⟩ := List.forall_mem_cons.mp hw
      rw [List.map_cons, List.nodup_cons] at hnodup
      have hloc := not_mem_tempsOf hname hcomplete hps hnodup.1
      obtain ⟨f, p⟩ := x
      have hremoval := (removal_delivers hcomplete.place hcomplete.present (Set.mem_univ _)
        fun e => .unpublishedLeft p.name e).and_ensures
          (removal_spec 0 hcomplete.place hcomplete.present fun e => .unpublishedLeft p.name e)
      rw [discardingAll]
      apply hremoval.bind
      rintro _ t ⟨-, evs, -, hquiet, -⟩
      apply ih _ hnodup.2
      exact awaiting_of_changes hps hquiet.changes fun l hl _ heq => hloc (heq ▸ hl)

theorem updating_unhindered (hs : Faultless s)
    (hfree : ∀ f : Field, ¬ Crowded s (.createTemporary f.fileName)) :
    Unhindered (updating c ds) s := by
  have hfields : Field.all.Nodup := by decide
  have hbuild := buildingAll_spec (Nat.zero_le (fileCount s)) c ds Field.all
  have hpublish := publishing_effect (Nat.zero_le (fileCount s)) c ds
  rw [updating, unhindered_bind_iff]
  constructor
  · rw [publishing, unhindered_bind_iff]
    refine ⟨buildingAll_unhindered hfields hs fun f _ => hfree f, ?_⟩
    intro outcomes t ho
    rw [Ensures, ho] at hbuild
    obtain ⟨_, ⟨⟩, hmap, hquiet, hawait, -⟩ := hbuild
    have ht : Faultless t := (reliable_iff hquiet.changes).mpr hs
    have hnodup : ((finished outcomes).map (·.1)).Nodup := by
      apply (hmap ▸ hfields).sublist (sublist_finished outcomes)
    cases hfirst : firstError outcomes with
    | some e =>
        rw [unhindered_bind_iff]
        exact ⟨(discardingAll_delivers hawait hnodup (.inl ht)).1, fun _ _ _ => trivial⟩
    | none => exact (publishingAll_delivers hawait hnodup (fun _ _ => Set.mem_univ _) (.inl ht)).1
  · intro out t ho
    rw [Ensures, ho] at hpublish
    rw [unhindered_bind_iff]
    have ht : Faultless t := (reliable_iff hpublish.last.changes).mpr hs
    exact ⟨(readers_delivers (hpublish.republished ⟨out, rfl⟩) (.inl ht)).1, fun _ _ _ => trivial⟩

/-- How many of the names for temporary files are taken. -/
def leftovers (s : Storage) (stem : String) : Nat :=
  (List.range temporaryLimit).countP fun i => s.isPresent (temporaryName stem i)

theorem leftovers_lt_iff {stem : String} :
    leftovers s stem < temporaryLimit ↔ ¬ Crowded s (.createTemporary stem) := by
  have hcount := List.countP_lt_length_iff (l := List.range temporaryLimit)
    (p := fun i => s.isPresent (temporaryName stem i))
  rw [List.length_range] at hcount
  rw [leftovers, hcount]
  simp [Crowded]

/-- The two stores of the index can be addressed with 32 bits. -/
def Addressable (c : AnalyzerConfig) (ds : List Document) (f : Field) : Prop :=
  ∀ b, (Builder.ofConfig c).addAll (sources f ds) = .ok b →
    StoreImage.size b.documentRecords < UInt32.size ∧ StoreImage.size b.wordRecords < UInt32.size

instance (c : AnalyzerConfig) (ds : List Document) (f : Field) : Decidable (Addressable c ds f) :=
  match hb : (Builder.ofConfig c).addAll (sources f ds) with
  | .error _ => isTrue fun b h => by rw [hb] at h; cases h
  | .ok b => decidable_of_iff (StoreImage.size b.documentRecords < UInt32.size ∧
      StoreImage.size b.wordRecords < UInt32.size)
        ⟨fun hsmall b' h => Except.ok.inj (hb.symm.trans h) ▸ hsmall, fun h => h b hb⟩

theorem nodup_sources (h : (ds.map Document.id).Nodup) (f : Field) :
    ((sources f ds).map Source.id).Nodup := by
  have hids : (sources f ds).map Source.id = (ds.map Document.id).map Bytes.ofString := by
    rw [sources, List.map_map, List.map_map]
    rfl
  rw [hids]
  exact h.map fun _ _ => Bytes.ofString_injective

theorem indexFile_iff (h : (ds.map Document.id).Nodup) :
    (∃ file, indexFile c ds f = some file) ↔ Addressable c ds f := by
  constructor
  · rintro ⟨file, hfile⟩ b hb
    obtain ⟨b', ⟨hadded, summary, hfinish⟩, -⟩ := built_of_indexFile hfile
    cases hb.symm.trans hadded
    exact small_of_finish b hfinish
  · intro hsmall
    obtain ⟨b, hb, -⟩ : ∃ b, (Builder.ofConfig c).addAll (sources f ds) = .ok b ∧
        Taken (Analyzer.ofConfig c) (sources f ds) b :=
      (taken_ofConfig c).addAll (nodup_sources h f)
    obtain ⟨hd, hw⟩ := hsmall b hb
    refine ⟨(parts b).flatten, ?_⟩
    exact indexFile_of_lt hb hd hw

theorem update_eq_ok_iff (cat : Catalog) (ds : List Document) (s : Storage) :
    (∃ summary y, Serving.update ds (cat, s) = .ok summary y) ↔
      ∃ out t, outcome (updating cat.config ds) s = (.ok out, t) := by
  rw [update_eq, outcome]
  cases (updating cat.config ds).run s with
  | ok out t => simp
  | error e t => simp

/-- Where no call fails, an update of documents with different ids succeeds just if its indices are
not too long for the format, as long as there are names left for temporary files. -/
theorem update_ok_iff (cat : Catalog) (ds : List Document) (s : Storage)
    (hids : (ds.map Document.id).Nodup) (hu : Unhindered (updating cat.config ds) s)
    (hfree : ∀ f : Field, leftovers s f.fileName < temporaryLimit) :
    (∃ summary y, Serving.update ds (cat, s) = .ok summary y) ↔
      ∀ f, Addressable cat.config ds f := by
  rw [update_eq_ok_iff]
  constructor
  · rintro ⟨out, t, ho⟩ f
    have heffect := updating_effect (Nat.zero_le (fileCount s)) cat.config ds
    rw [Ensures, ho] at heffect
    obtain ⟨file, hfile, -⟩ := (heffect.republished ⟨out, rfl⟩ f).1 (by cases f <;> decide)
    exact (indexFile_iff hids).mp ⟨file, hfile⟩
  · intro hsmall
    have hdelivers : Delivers Set.univ (updating cat.config ds) s fun _ _ => True :=
      updating_delivers (fun f => (indexFile_iff hids).mpr (hsmall f)) fun f =>
        leftovers_lt_iff.mp (hfree f)
    obtain ⟨-, out, t, ho, -⟩ := hdelivers (.inr hu)
    exact ⟨out, t, ho⟩

end Concordance.Proofs.Completion
