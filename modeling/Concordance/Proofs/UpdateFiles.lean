import Concordance.Proofs.Deliveries

namespace Concordance.Proofs.UpdateFiles

open Analysis (AnalyzerConfig)
open Index Catalog Places Frames Calls Scripts Publication Updates Reopening Outcomes
open Deliveries IndexImage
open Storing (temporaryName)

variable {n : Nat} {P : Set Location} {c : AnalyzerConfig} {ds : List Document} {s t u : Storage}
  {outcomes : List (Field × Except Error Pending)} {evs evs' : List Event}

theorem firstError_eq_some {before behind : List (Field × Except Error Pending)} {f : Field}
    {e : Error} (h : ∀ x ∈ before, ∃ p, x.2 = .ok p) :
    firstError (before ++ (f, .error e) :: behind) = some e := by
  induction before with
  | nil => rfl
  | cons x before ih =>
      obtain ⟨⟨p, hp⟩, hrest⟩ := List.forall_mem_cons.mp h
      obtain ⟨g, built⟩ := x
      cases hp
      exact ih hrest

theorem firstError_eq_none (h : ∀ x ∈ outcomes, ∃ p, x.2 = .ok p) :
    firstError outcomes = none := by
  rw [firstError, List.findSome?_eq_none_iff]
  rintro ⟨f, built⟩ hx
  obtain ⟨p, rfl⟩ := h _ hx
  rfl

theorem finished_cons_ok (f : Field) (p : Pending) :
    finished ((f, .ok p) :: outcomes) = (f, p) :: finished outcomes := rfl

theorem finished_cons_error (f : Field) (e : Error) :
    finished ((f, .error e) :: outcomes) = finished outcomes := rfl

theorem sublist_finished (outcomes : List (Field × Except Error Pending)) :
    ((finished outcomes).map (·.1)).Sublist (outcomes.map (·.1)) := by
  induction outcomes with
  | nil => exact List.Sublist.refl _
  | cons x outcomes ih =>
      obtain ⟨f, e | p⟩ := x
      · rw [finished_cons_error]
        exact ih.cons f
      · rw [finished_cons_ok]
        exact ih.cons_cons f

theorem map_finished (h : firstError outcomes = none) :
    (finished outcomes).map (·.1) = outcomes.map (·.1) := by
  induction outcomes with
  | nil => rfl
  | cons x outcomes ih =>
      obtain ⟨f, e | p⟩ := x
      · cases h
      · rw [finished_cons_ok, List.map_cons, List.map_cons, ih h]

theorem aside_not_lives : ∀ loc ∈ aside s, loc ∉ lives s := by
  rintro loc ⟨f, -, i, hi⟩ ⟨g, hg⟩
  exact place?_ne (plain_temporaryName (plain_fileName f) i) (plain_fileName g)
    (temporaryName_ne_fileName _ i g) hi hg

/-- What a script does to the files if it publishes the indices of the documents, given its calls
and what comes of it. -/
structure Effect {β : Type} (n : Nat) (c : AnalyzerConfig) (ds : List Document) (s : Storage)
    (evs : List Event) (x : Except Error β) (t : Storage) : Prop where
  moments : ∀ ev ∈ evs, Moment n c ds (aside s) s ev.after
  last : Moment n c ds (aside s) s t
  cleared : Deletes s → Changes n (lives s) s t
  unbuilt : ∀ outcomes u e, (buildingAll c ds Field.all).run s = .ok outcomes u →
    firstError outcomes = some e → x = .error e ∧ Republished c ds [] s t
  unnamed : ∀ f e, (Field.fileName f, e) ∈ failedRenames evs →
    x = .error e ∧ Republished c ds (Field.all.takeWhile (· ≠ f)) s t
  republished : (∃ out, x = .ok out) → Republished c ds Field.all s t

theorem effect_of_discarded {β : Type} {e : Error} (hquiet : Quiet n (aside s) s evs t)
    (hsub : tempsOf (finished outcomes) s ⊆ aside s)
    (hdeletes : Deletes s → Changes n (tempsOf (finished outcomes) s) s t)
    (hrun : ∀ outcomes' u, (buildingAll c ds Field.all).run s = .ok outcomes' u →
      outcomes' = outcomes) (he : firstError outcomes = some e)
    (hquiet' : Quiet n (tempsOf (finished outcomes) t) t evs' u)
    (hgone : Deletes t → ∀ loc ∈ tempsOf (finished outcomes) t, fileAt u loc = none) :
    Effect n c ds s (evs ++ evs') (.error e : Except Error β) u := by
  rw [tempsOf_eq hquiet.changes] at hquiet' hgone
  have hall := hquiet.append (hquiet'.mono hsub)
  have hnothing : Republished c ds [] s u := republished_nil hall.changes aside_not_lives
  refine ⟨fun ev hev => moment_of_changes (hall.within ev hev) aside_not_lives,
    moment_of_changes hall.changes aside_not_lives, fun hd => ?_, fun outcomes' u' e' hr he' => ?_,
    fun f e' hmem => ?_, ?_⟩
  · apply ((hdeletes hd).trans hquiet'.changes).shrink
    intro loc hloc _
    obtain ⟨f, hnone, -⟩ := hsub hloc
    rw [hnone]
    exact hgone (deletes_of_changes hd hquiet.changes) loc hloc
  · rw [hrun outcomes' u' hr, he] at he'
    cases he'
    exact ⟨rfl, hnothing⟩
  · rw [hall.renamed] at hmem
    cases hmem
  · rintro ⟨out, ⟨⟩⟩

theorem effect_of_published {β : Type} {x : Except Error β} (hquiet : Quiet n (aside s) s evs t)
    (hfields : outcomes.map (·.1) = Field.all) (hsub : tempsOf (finished outcomes) s ⊆ aside s)
    (hdeletes : Deletes s → Changes n (tempsOf (finished outcomes) s) s t)
    (hrun : ∀ outcomes' u, (buildingAll c ds Field.all).run s = .ok outcomes' u →
      outcomes' = outcomes) (hnone : firstError outcomes = none)
    (h : Published n c ds (finished outcomes) t evs' x u) : Effect n c ds s (evs ++ evs') x u := by
  have htemps := tempsOf_eq hquiet.changes (finished outcomes)
  have hbuilt : Moment n c ds (aside s) s t := moment_of_changes hquiet.changes aside_not_lives
  have hsame : Republished c ds [] s t := republished_nil hquiet.changes aside_not_lives
  have hsub' : tempsOf (finished outcomes) t ⊆ aside s := htemps ▸ hsub
  have hfinished : (finished outcomes).map (·.1) = Field.all := (map_finished hnone).trans hfields
  refine ⟨?_, hbuilt.trans h.last hsub', fun hd => ?_, fun outcomes' u' e hr he => ?_,
    fun f e hmem => ?_, fun hok => ?_⟩
  · refine List.forall_mem_append.mpr ⟨fun ev hev => ?_, fun ev hev => ?_⟩
    · exact moment_of_changes (hquiet.within ev hev) aside_not_lives
    · exact hbuilt.trans (h.moments ev hev) hsub'
  · have hlast := h.last.changes
    rw [htemps, lives_eq hquiet.changes] at hlast
    apply (((hdeletes hd).mono Set.subset_union_left).trans hlast).shrink
    intro loc hloc hlive
    have hloc := hloc.resolve_right hlive
    obtain ⟨f, habsent, -⟩ := hsub hloc
    rw [habsent]
    exact h.removed (deletes_of_changes hd hquiet.changes) loc (htemps.symm ▸ hloc)
  · rw [hrun outcomes' u' hr, hnone] at he
    cases he
  · rw [failedRenames_append, hquiet.renamed, List.nil_append] at hmem
    rcases h.outcome with ⟨-, hfailed, -⟩ | ⟨g, e', -, hx, hfailed, hbefore⟩
    · rw [hfailed] at hmem
      cases hmem
    · rw [hfailed, List.mem_singleton, Prod.mk.injEq] at hmem
      obtain ⟨hname, rfl⟩ := hmem
      obtain rfl := fileName_injective hname
      rw [hfinished] at hbefore
      exact ⟨hx, hsame.after hbefore⟩
  · rcases h.outcome with ⟨-, -, hall⟩ | ⟨g, e', -, hx, -, -⟩
    · rw [hfinished] at hall
      exact hsame.after hall
    · obtain ⟨out, hout⟩ := hok
      rw [hx] at hout
      cases hout

theorem publishing_effect (hn : n ≤ fileCount s) (c : AnalyzerConfig) (ds : List Document) :
    Ensures (publishing c ds) s (Effect n c ds s) := by
  rw [publishing, ensures_bind_iff]
  apply (buildingAll_spec hn c ds Field.all).self.imp
  rintro evs x t ⟨⟨outcomes, rfl, hfields, hquiet, hawait, hsub, hdeletes⟩, hself⟩
  have hrun : ∀ outcomes' u, (buildingAll c ds Field.all).run s = .ok outcomes' u →
      outcomes' = outcomes := by
    intro outcomes' u hr
    rw [outcome_of_run hr] at hself
    cases hself
    rfl
  have hnodup : ((finished outcomes).map (·.1)).Nodup := by
    apply List.Nodup.sublist (sublist_finished outcomes)
    rw [hfields]
    decide
  dsimp only
  cases he : firstError outcomes with
  | some e =>
      dsimp only
      rw [ensures_bind_iff]
      apply (discardingAll_spec n hawait hnodup).imp
      rintro evs' y u ⟨rfl, hquiet', hgone⟩
      dsimp only
      rw [ensures_throw_iff, List.append_nil]
      exact effect_of_discarded hquiet hsub hdeletes hrun he hquiet' hgone
  | none =>
      apply (publishingAll_spec n hawait hnodup).imp
      intro evs' y u h
      exact effect_of_published hquiet hfields hsub hdeletes hrun he h

theorem effect_of_quiet {β γ : Type} {a : β} {x : Except Error γ}
    (h : Effect n c ds s evs (.ok a : Except Error β) t) (h' : Quiet n ∅ t evs' u) :
    Effect n c ds s (evs ++ evs') x u := by
  have hnone : ∀ loc ∈ (∅ : Set Location), loc ∉ lives t := by
    rintro loc ⟨⟩
  have hmoment : ∀ v, Changes n ∅ t v → Moment n c ds (aside s) s v := fun v hv =>
    h.last.trans (moment_of_changes hv hnone) (Set.empty_subset _)
  refine ⟨?_, hmoment u h'.changes, fun hd => ?_, fun outcomes' u' e hr he => ?_,
    fun f e hmem => ?_, fun _ => ?_⟩
  · exact List.forall_mem_append.mpr ⟨h.moments, fun ev hev => hmoment _ (h'.within ev hev)⟩
  · exact (h.cleared hd).trans (h'.changes.mono (Set.empty_subset _))
  · exact absurd (h.unbuilt outcomes' u' e hr he).1 (by simp)
  · rw [failedRenames_append, h'.renamed, List.append_nil] at hmem
    exact absurd (h.unnamed f e hmem).1 (by simp)
  · exact (h.republished ⟨a, rfl⟩).before (republished_nil h'.changes hnone)

theorem effect_of_error {β γ : Type} {e : Error}
    (h : Effect n c ds s evs (.error e : Except Error β) t) :
    Effect n c ds s evs (.error e : Except Error γ) t := by
  refine ⟨h.moments, h.last, h.cleared, fun outcomes u e' hr he => ?_, fun f e' hmem => ?_, ?_⟩
  · obtain ⟨⟨⟩, hrest⟩ := h.unbuilt outcomes u e' hr he
    exact ⟨rfl, hrest⟩
  · obtain ⟨⟨⟩, hrest⟩ := h.unnamed f e' hmem
    exact ⟨rfl, hrest⟩
  · rintro ⟨out, ⟨⟩⟩

theorem updating_effect (hn : n ≤ fileCount s) (c : AnalyzerConfig) (ds : List Document) :
    Ensures (updating c ds) s (Effect n c ds s) := by
  rw [updating, ensures_bind_iff]
  apply (publishing_effect hn c ds).imp
  rintro evs (e | out) t h
  · exact effect_of_error h
  · dsimp only
    rw [ensures_bind_iff]
    apply (readers_spec n (h.republished ⟨out, rfl⟩)).imp
    rintro evs' (e | readers) u ⟨hquiet, -⟩
    · exact effect_of_quiet h hquiet
    · dsimp only
      rw [ensures_pure_iff, List.append_nil]
      exact effect_of_quiet h hquiet

theorem update_eq (cat : Catalog) (ds : List Document) (s : Storage) :
    Serving.update ds (cat, s) = match (updating cat.config ds).run s with
      | .ok (indices, readers) t =>
          .ok ⟨ds.length, indices⟩ ({ cat with readers := some readers }, t)
      | .error e t => .error e (cat, t) := by
  rw [Serving.update, get_bind]
  cases hr : (updating cat.config ds).run s with
  | ok out t =>
      have hstep : Serving.onStorage (updating cat.config ds).run (cat, s) = .ok out (cat, t) := by
        simp only [Serving.onStorage, hr]
      rw [bind_of_ok hstep]
      rfl
  | error e t =>
      have hstep : Serving.onStorage (updating cat.config ds).run (cat, s) = .error e (cat, t) := by
        simp only [Serving.onStorage, hr]
      rw [bind_of_error hstep]

theorem update_of_error {cat : Catalog} {e : Error}
    (h : (outcome (updating cat.config ds) s).1 = .error e) :
    Serving.update ds (cat, s) = .error e (cat, (outcome (updating cat.config ds) s).2) := by
  rw [update_eq]
  rw [outcome] at h ⊢
  cases hr : (updating cat.config ds).run s with
  | ok out t =>
      rw [hr] at h
      cases h
  | error e' t =>
      rw [hr] at h
      cases h
      rfl

theorem storage_of_update (cat : Catalog) (ds : List Document) (s : Storage) :
    (stateOf (Serving.update ds (cat, s))).2 = (outcome (updating cat.config ds) s).2 := by
  rw [update_eq, outcome]
  cases (updating cat.config ds).run s with
  | ok out t => rfl
  | error e t => rfl

theorem buildingAll_run (c : AnalyzerConfig) (ds : List Document) (s : Storage) :
    ∃ outcomes u, (buildingAll c ds Field.all).run s = .ok outcomes u ∧
      outcomes.map (·.1) = Field.all := by
  have h := buildingAll_spec (n := 0) (Nat.zero_le (fileCount s)) c ds Field.all
  cases hr : (buildingAll c ds Field.all).run s with
  | ok outcomes u =>
      obtain ⟨outcomes', ⟨⟩, hfields, -⟩ := h.run_ok hr
      exact ⟨outcomes, u, rfl, hfields⟩
  | error e u =>
      obtain ⟨outcomes', ⟨⟩, -⟩ := h.run_error hr

theorem updating_refused {f : Field} (hfile : ∀ g, ∃ file, indexFile c ds g = some file)
    (hfree : ∀ g : Field, ¬ Crowded s (.createTemporary g.fileName))
    (hs : Reliable {x | x ≠ (.rename, f.fileName)} s)
    (hr : ∀ clock, s.plan.refuses clock .rename f.fileName = true) :
    ∃ ev ∈ (updating c ds).events s, ∃ old, ev.request = .rename old f.fileName ∧
      ev.failure = some (.storage (.refused .rename f.fileName)) := by
  have hfields : Field.all.Nodup := by decide
  have hcreate : {x : StorageCall × String | x.1 = .create} ⊆ {x | x ≠ (.rename, f.fileName)} := by
    rintro _ hx rfl
    cases hx
  have hbuild := (buildingAll_delivers hfields (fun g _ => hfile g) hcreate
    fun g _ => hfree g).and_ensures (buildingAll_spec (Nat.zero_le (fileCount s)) c ds Field.all)
  obtain ⟨-, outcomes, t, ho, hkept, hall, evs, _, ⟨⟩, hmap, hquiet, hawait, -⟩ := hbuild (.inl hs)
  have hfinished : (finished outcomes).map (·.1) = Field.all :=
    (map_finished (firstError_eq_none hall)).trans hmap
  have hmem : f ∈ (finished outcomes).map (·.1) := by
    rw [hfinished]
    cases f <;> decide
  obtain ⟨ev, hev, hfailed⟩ := publishingAll_refused hawait (hfinished ▸ hfields) hmem (hkept hs)
    (hquiet.changes.plan.symm ▸ hr)
  refine ⟨ev, mem_events_bind ?_ _, hfailed⟩
  rw [publishing]
  apply mem_events_bind_of_ok ho
  simp only [firstError_eq_none hall]
  exact hev

theorem mem_failedRenames {ev : Event} {old new : String} {e : Error} (hev : ev ∈ evs)
    (hr : ev.request = .rename old new) (hf : ev.failure = some e) :
    (new, e) ∈ failedRenames evs := by
  refine List.mem_filterMap.mpr ⟨ev, hev, ?_⟩
  rw [failedRename?, hr, hf]

/-- Whatever calls fail, an update that cannot build every index leaves the published ones as they
were and tells the first failure in the order of the fields; when a renaming fails, just the fields
before it have new indices; no index is ever seen in part; and beside the published indices only
temporary files change, of which none are left unless they cannot be deleted. -/
theorem update_files (cat : Catalog) (ds : List Document) (s : Storage) :
    (∃ outcomes u, (buildingAll cat.config ds Field.all).run s = .ok outcomes u ∧
      outcomes.map (·.1) = Field.all ∧
      ∀ before f e behind, outcomes = before ++ (f, .error e) :: behind →
        (∀ x ∈ before, ∃ p, x.2 = .ok p) → ∃ t, Serving.update ds (cat, s) = .error e (cat, t) ∧
          ∀ g : Field, t.file? g.fileName = s.file? g.fileName) ∧
    (∀ ev ∈ (updating cat.config ds).events s, ∀ old f e,
      ev.request = .rename old (Field.fileName f) → ev.failure = some e →
        ∃ t, Serving.update ds (cat, s) = .error e (cat, t) ∧
          Republished cat.config ds (Field.all.takeWhile (· ≠ f)) s t) ∧
    (stateOf (Serving.update ds (cat, s))).2 ∈ (updating cat.config ds).moments s ∧
    (∀ t ∈ (updating cat.config ds).moments s, Whole cat.config ds s t ∧
      (∀ name, place? t name = place? s name) ∧
        ∀ loc, loc ∉ lives s → fileAt s loc ≠ none → fileAt t loc = fileAt s loc) ∧
    (Deletes s → ∀ loc, loc ∉ lives s →
      fileAt (stateOf (Serving.update ds (cat, s))).2 loc = fileAt s loc) := by
  have heffect : Effect 0 cat.config ds s _ _ _ := updating_effect (Nat.zero_le _) cat.config ds
  rw [storage_of_update]
  refine ⟨?_, ?_, outcome_mem_moments _ s, ?_,
    fun hd loc hloc => (heffect.cleared hd).files loc hloc⟩
  · obtain ⟨outcomes, u, hr, hfields⟩ := buildingAll_run cat.config ds s
    refine ⟨outcomes, u, hr, hfields, ?_⟩
    rintro before f e behind rfl hbefore
    obtain ⟨hx, hsame⟩ := heffect.unbuilt _ u e hr (firstError_eq_some hbefore)
    exact ⟨_, update_of_error hx, fun g => (hsame g).2 List.not_mem_nil⟩
  · intro ev hev old f e hr hf
    obtain ⟨hx, hbefore⟩ := heffect.unnamed f e (mem_failedRenames hev hr hf)
    exact ⟨_, update_of_error hx, hbefore⟩
  · have hmoment : ∀ t ∈ (updating cat.config ds).moments s,
        Moment 0 cat.config ds (aside s) s t := by
      intro t ht
      rcases List.mem_cons.mp ht with rfl | ht
      · exact moment_of_changes (Changes.refl t) aside_not_lives
      · obtain ⟨ev, hev, rfl⟩ := List.mem_map.mp ht
        exact heffect.moments ev hev
    intro t ht
    have h := hmoment t ht
    refine ⟨h.whole, h.changes.places, fun loc hloc hpresent => h.changes.files loc ?_⟩
    rintro (haside | hlive)
    · exact not_mem_aside hpresent haside
    · exact hloc hlive

def pages : List Document := [{ route := "/", title := "?", body := "fox" }]

theorem indexFile_pages (f : Field) : ∃ file, indexFile {} pages f = some file := by
  have hsmall : (match (Builder.ofConfig {}).addAll (sources f pages) with
      | .ok b => decide (StoreImage.size b.documentRecords < UInt32.size ∧
          StoreImage.size b.wordRecords < UInt32.size)
      | .error _ => false) = true := by
    cases f <;> decide +kernel
  cases hb : (Builder.ofConfig {}).addAll (sources f pages) with
  | error e =>
      rw [hb] at hsmall
      cases hsmall
  | ok b =>
      rw [hb] at hsmall
      obtain ⟨hd, hw⟩ := of_decide_eq_true hsmall
      exact ⟨_, indexFile_of_lt hb hd hw⟩

def strewn (plan : FaultPlan) : Storage :=
  ⟨.memory (.ofList [("routes.idx", Packed.ofBytes [1]), ("routes.idx_0.tmp", Packed.ofBytes [2])]),
    plan, 0, []⟩

def barred : Storage := strewn ⟨fun _ call _ => call = .create, fun _ _ _ => false⟩

def stuck : Storage :=
  strewn ⟨fun _ call name => call = .rename && name = "tags.idx", fun _ _ _ => false⟩

theorem stray_not_lives (plan : FaultPlan) : ["routes.idx_0.tmp"] ∉ lives (strewn plan) := by
  rintro ⟨f, hf⟩
  have hname : f.fileName = "routes.idx_0.tmp" := (List.cons.inj (Option.some.inj hf)).1
  exact absurd hname (by cases f <;> decide)

theorem fileAt_stray (plan : FaultPlan) : fileAt (strewn plan) ["routes.idx_0.tmp"] = some [2] := by
  have hnone : fileAt (strewn .none) ["routes.idx_0.tmp"] = some [2] := by decide +kernel
  exact hnone

theorem reliable_stuck : Reliable {x | x ≠ (.rename, "tags.idx")} stuck := by
  refine ⟨⟨_, rfl⟩, fun clock call name hother => ?_, fun _ _ _ => rfl⟩
  simpa [stuck, strewn] using hother

theorem not_crowded_strewn (plan : FaultPlan) (f : Field) :
    ¬ Crowded (strewn plan) (.createTemporary f.fileName) := by
  have hfree : (strewn .none).isPresent (temporaryName f.fileName 1) = false := by
    cases f <;> decide +kernel
  exact not_crowded (i := 1) (by decide) hfree

/-- Documents are first refused for want of a temporary file, and then for want of a name after the
first of the indices has been published. -/
theorem update_files_barred : Deletes barred ∧ ["routes.idx_0.tmp"] ∉ lives barred ∧
    (∃ t, Serving.update pages (Catalog.ofConfig {}, barred) =
        .error (.storage (.refused .create "routes.idx_1.tmp")) (Catalog.ofConfig {}, t) ∧
      t.file? "routes.idx" = some [1] ∧ fileAt t ["routes.idx_0.tmp"] = some [2]) ∧
    Deletes stuck ∧ ["routes.idx_0.tmp"] ∉ lives stuck ∧
    ∃ t file, Serving.update pages (Catalog.ofConfig {}, stuck) =
        .error (.storage (.refused .rename "tags.idx")) (Catalog.ofConfig {}, t) ∧
      indexFile {} pages .routes = some file ∧ t.file? "routes.idx" = some file ∧
      t.file? "tags.idx" = none ∧ t.file? "content.idx" = none ∧
      fileAt t ["routes.idx_0.tmp"] = some [2] := by
  have hbarred : Deletes barred := fun _ _ => rfl
  have hstuck : Deletes stuck := fun _ _ => rfl
  refine ⟨hbarred, stray_not_lives _, ?_, hstuck, stray_not_lives _, ?_⟩
  · have hfirst : (outcome (buildingAll {} pages Field.all) barred).1.toOption.bind
        (fun outcomes => firstError (outcomes.take 1)) =
          some (.storage (.refused .create "routes.idx_1.tmp")) := by decide +kernel
    have hroutes : barred.file? "routes.idx" = some [1] := by decide +kernel
    obtain ⟨⟨outcomes, u, hr, -, hunbuilt⟩, -, -, -, hcleared⟩ :=
      update_files (Catalog.ofConfig {}) pages barred
    change (buildingAll {} pages Field.all).run barred = .ok outcomes u at hr
    rw [outcome, hr] at hfirst
    cases outcomes with
    | nil => cases hfirst
    | cons first rest =>
        obtain ⟨f, built⟩ := first
        cases built with
        | ok p => cases hfirst
        | error e =>
            cases hfirst
            obtain ⟨t, ht, hsame⟩ := hunbuilt [] f _ rest rfl (by simp)
            have hstray := hcleared hbarred _ (stray_not_lives _)
            rw [ht] at hstray
            exact ⟨t, ht, (hsame .routes).trans hroutes, hstray.trans (fileAt_stray _)⟩
  · have htags : stuck.file? "tags.idx" = none := by decide +kernel
    have hcontent : stuck.file? "content.idx" = none := by decide +kernel
    obtain ⟨-, hunnamed, -, -, hcleared⟩ := update_files (Catalog.ofConfig {}) pages stuck
    obtain ⟨ev, hev, old, hrename, hfailed⟩ :=
      updating_refused (f := .tags) indexFile_pages (not_crowded_strewn _) reliable_stuck
        fun _ => rfl
    obtain ⟨t, ht, hrepublished⟩ := hunnamed ev hev old .tags _ hrename hfailed
    obtain ⟨file, hfile, hroutes⟩ := (hrepublished .routes).1 (by decide)
    have hstray := hcleared hstuck _ (stray_not_lives _)
    rw [ht] at hstray
    exact ⟨t, file, ht, hfile, hroutes, ((hrepublished .tags).2 (by decide)).trans htags,
      ((hrepublished .content).2 (by decide)).trans hcontent, hstray.trans (fileAt_stray _)⟩

end Concordance.Proofs.UpdateFiles
