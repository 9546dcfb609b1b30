import Concordance.Proofs.Publication

namespace Concordance.Proofs.Updates

open Analysis (AnalyzerConfig)
open Index Catalog Places Frames Calls Scripts Publication
open Storing (temporaryName)

variable {n : Nat} {P Q : Set Location} {c : AnalyzerConfig} {ds : List Document} {f : Field}
  {s t u : Storage} {loc : Location} {b : Bytes}

def indexFile (c : AnalyzerConfig) (ds : List Document) (f : Field) : Option Bytes :=
  match (Builder.ofConfig c).addAll (sources f ds) with
  | .error _ => none
  | .ok b => b.finish.toOption.map fun (parts, _) => parts.flatten

def lives (s : Storage) : Set Location := {loc | ∃ f : Field, place? s f.fileName = some loc}

/-- The places for temporary files where nothing lies. -/
def aside (s : Storage) : Set Location := {loc | ∃ f : Field, loc ∈ spare s f.fileName}

def tempsOf (ps : List (Field × Pending)) (s : Storage) : Set Location :=
  {loc | ∃ x ∈ ps, place? s x.2.temporary = some loc}

/-- The pending indices lie complete in their temporary files. -/
def Awaiting (c : AnalyzerConfig) (ds : List Document) (ps : List (Field × Pending))
    (s : Storage) : Prop :=
  ∀ x ∈ ps, x.2.name = x.1.fileName ∧
    ∃ loc b, indexFile c ds x.1 = some b ∧ Complete x.2 b loc s

theorem not_mem_spare {stem : String} (h : fileAt s loc ≠ none) : loc ∉ spare s stem :=
  fun hloc => h hloc.1

theorem not_mem_aside (h : fileAt s loc ≠ none) : loc ∉ aside s := by
  rintro ⟨f, hloc⟩
  exact not_mem_spare h hloc

theorem spare_subset_aside (s : Storage) (f : Field) : spare s f.fileName ⊆ aside s :=
  fun _ h => ⟨f, h⟩

theorem aside_subset (h : Changes n (aside s) s t) : aside t ⊆ aside s := by
  rintro loc ⟨f, hnone, i, hi⟩
  have hplace : place? s (temporaryName f.fileName i) = some loc := by rw [← h.places, hi]
  refine ⟨f, ?_, i, hplace⟩
  by_contra hsome
  exact hsome ((h.files loc (not_mem_aside hsome)).symm.trans hnone)

theorem tempsOf_eq (h : Changes n P s t) (ps : List (Field × Pending)) :
    tempsOf ps t = tempsOf ps s := by
  ext loc
  simp only [tempsOf, h.places]

theorem lives_eq (h : Changes n P s t) : lives t = lives s := by
  ext loc
  simp only [lives, h.places]

theorem tempsOf_subset_cons (x : Field × Pending) (ps : List (Field × Pending)) :
    tempsOf ps s ⊆ tempsOf (x :: ps) s :=
  fun _ ⟨y, hy, hloc⟩ => ⟨y, List.mem_cons_of_mem x hy, hloc⟩

theorem singleton_subset_tempsOf {x : Field × Pending} (ps : List (Field × Pending))
    (h : place? s x.2.temporary = some loc) : {loc} ⊆ tempsOf (x :: ps) s := by
  rintro l rfl
  exact ⟨x, List.mem_cons_self, h⟩

theorem awaiting_of_changes {ps : List (Field × Pending)} (h : Awaiting c ds ps s)
    (hc : Changes n P s t) (hp : ∀ loc ∈ tempsOf ps s, fileAt s loc ≠ none → loc ∉ P) :
    Awaiting c ds ps t := by
  intro x hx
  obtain ⟨hname, loc, b, hb, hcomplete⟩ := h x hx
  exact ⟨hname, loc, b, hb, complete_of_changes hcomplete hc
    (hp loc ⟨x, hx, hcomplete.place⟩ hcomplete.present)⟩

theorem building_spec (hn : n ≤ fileCount s) (c : AnalyzerConfig) (ds : List Document) (f : Field) :
    Ensures (building c ds f) s fun evs x t => Quiet n (spare s f.fileName) s evs t ∧
      (∀ p, x = .ok p → p.name = f.fileName ∧ ∃ loc b, indexFile c ds f = some b ∧
        Complete p b loc t ∧ loc ∈ spare s f.fileName ∧ Changes n {loc} s t) ∧
      ∀ e, x = .error e → Deletes s → Changes n ∅ s t := by
  rw [building, ensures_bind_iff, ensures_ofExcept_iff]
  cases hb : (Builder.ofConfig c).addAll (sources f ds) with
  | error e =>
      refine ⟨Quiet.nil s, ?_, fun _ _ _ => Changes.refl s⟩
      intro p hp
      cases hp
  | ok b =>
      apply (preparing_spec hn b f.fileName).imp
      rintro evs x t ⟨hquiet, hok, herror⟩
      refine ⟨hquiet, fun p hp => ?_, herror⟩
      obtain ⟨loc, parts, hname, hfinish, hcomplete, hspare, hc⟩ := hok p hp
      refine ⟨hname, loc, parts.flatten, ?_, hcomplete, hspare, hc⟩
      simp only [indexFile, hb, hfinish]
      rfl

theorem buildingAll_spec (hn : n ≤ fileCount s) (c : AnalyzerConfig) (ds : List Document)
    (fs : List Field) : Ensures (buildingAll c ds fs) s fun evs x t => ∃ outcomes,
      x = .ok outcomes ∧ outcomes.map (·.1) = fs ∧ Quiet n (aside s) s evs t ∧
        Awaiting c ds (finished outcomes) t ∧ tempsOf (finished outcomes) s ⊆ aside s ∧
        (Deletes s → Changes n (tempsOf (finished outcomes) s) s t) := by
  induction fs generalizing s with
  | nil =>
      refine ⟨[], rfl, rfl, Quiet.nil s, ?_, ?_, fun _ => Changes.refl s⟩
      · intro x hx
        cases hx
      · rintro loc ⟨x, ⟨⟩, -⟩
  | cons f fs ih =>
      rw [buildingAll, ensures_bind_iff, ensures_attempt_iff]
      apply (building_spec hn c ds f).imp
      rintro evs x t ⟨hquiet, hok, herror⟩
      have hquiet := hquiet.mono (spare_subset_aside s f)
      dsimp only
      rw [ensures_bind_iff]
      apply (ih (Nat.le_trans hn hquiet.changes.grown)).imp
      rintro evs' y u ⟨outcomes, rfl, hfields, hquiet', hawait, hsub, hdeletes⟩
      rw [tempsOf_eq hquiet.changes] at hsub
      have hsub := hsub.trans (aside_subset hquiet.changes)
      dsimp only
      rw [ensures_pure_iff, List.append_nil]
      refine ⟨(f, x) :: outcomes, rfl, by rw [List.map_cons, hfields],
        hquiet.append (hquiet'.mono (aside_subset hquiet.changes)), ?_⟩
      cases x with
      | error e =>
          refine ⟨hawait, hsub, fun hd => ?_⟩
          have hc := herror e rfl hd
          have hrest := hdeletes (deletes_of_changes hd hc)
          rw [tempsOf_eq hc] at hrest
          exact (hc.mono (Set.empty_subset _)).trans hrest
      | ok p =>
          obtain ⟨hname, loc, b, hb, hcomplete, hspare, hc⟩ := hok p rfl
          have hplace : place? s p.temporary = some loc := by rw [← hc.places, hcomplete.place]
          refine ⟨?_, ?_, fun hd => ?_⟩
          · have hmem := complete_of_changes hcomplete hquiet'.changes
              (not_mem_aside hcomplete.present)
            exact List.forall_mem_cons.mpr ⟨⟨hname, loc, b, hb, hmem⟩, hawait⟩
          · rintro l ⟨y, hy, hl⟩
            rcases List.mem_cons.mp hy with rfl | hy
            · obtain rfl := Option.some.inj (hplace.symm.trans hl)
              exact spare_subset_aside s f hspare
            · exact hsub ⟨y, hy, hl⟩
          · have hrest := hdeletes (deletes_of_changes hd hc)
            rw [tempsOf_eq hc] at hrest
            exact (hc.mono (singleton_subset_tempsOf (x := (f, p)) _ hplace)).trans
              (hrest.mono (tempsOf_subset_cons (f, p) _))

theorem plain_temporary {x : Field × Pending} (hname : x.2.name = x.1.fileName)
    (h : Complete x.2 b loc s) : Plain x.2.temporary := by
  obtain ⟨i, hi⟩ := h.temporary
  rw [hi, hname]
  exact plain_temporaryName (plain_fileName x.1) i

theorem place_ne_temporary {x y : Field × Pending} {b' : Bytes} {loc' : Location}
    (hx : x.2.name = x.1.fileName) (hy : y.2.name = y.1.fileName) (h : Complete x.2 b loc s)
    (h' : Complete y.2 b' loc' s) (hne : x.1 ≠ y.1) : loc ≠ loc' := by
  rintro rfl
  refine place?_ne (plain_temporary hx h) (plain_temporary hy h') ?_ h.place h'.place
  obtain ⟨i, hi⟩ := h.temporary
  obtain ⟨j, hj⟩ := h'.temporary
  rw [hi, hj, hx, hy]
  intro heq
  exact hne (field_of_temporaryName heq)

theorem place_ne_live {x : Field × Pending} (hx : x.2.name = x.1.fileName)
    (h : Complete x.2 b loc s) (g : Field) : place? s g.fileName ≠ some loc := by
  refine place?_ne (plain_temporary hx h) (plain_fileName g) ?_ h.place
  obtain ⟨i, hi⟩ := h.temporary
  rw [hi]
  exact temporaryName_ne_fileName _ i g

theorem not_mem_tempsOf {x : Field × Pending} {ps : List (Field × Pending)}
    (hx : x.2.name = x.1.fileName) (h : Complete x.2 b loc s) (hw : Awaiting c ds ps s)
    (hnew : x.1 ∉ ps.map (·.1)) : loc ∉ tempsOf ps s := by
  rintro ⟨y, hy, hplace⟩
  obtain ⟨hname, loc', b', -, hcomplete⟩ := hw y hy
  have hne : x.1 ≠ y.1 := fun heq => hnew (heq ▸ List.mem_map_of_mem hy)
  have hloc : loc' = loc := Option.some.inj (hcomplete.place.symm.trans hplace)
  exact place_ne_temporary hx hname h hcomplete hne hloc.symm

theorem discardingAll_spec (n : Nat) {ps : List (Field × Pending)} (hw : Awaiting c ds ps s)
    (hnodup : (ps.map (·.1)).Nodup) : Ensures (discardingAll ps) s fun evs x t =>
      x = .ok () ∧ Quiet n (tempsOf ps s) s evs t ∧
        (Deletes s → ∀ loc ∈ tempsOf ps s, fileAt t loc = none) := by
  induction ps generalizing s with
  | nil =>
      refine ⟨rfl, Quiet.nil s, fun _ loc hloc => ?_⟩
      obtain ⟨x, hx, -⟩ := hloc
      cases hx
  | cons x ps ih =>
      obtain ⟨⟨hname, loc, b, hb, hcomplete⟩, hps⟩ := List.forall_mem_cons.mp hw
      rw [List.map_cons, List.nodup_cons] at hnodup
      have hloc := not_mem_tempsOf hname hcomplete hps hnodup.1
      have hone := singleton_subset_tempsOf ps hcomplete.place
      obtain ⟨f, p⟩ := x
      rw [discardingAll, ensures_bind_iff]
      apply (removal_spec n hcomplete.place hcomplete.present _).imp
      rintro evs y t ⟨rfl, hquiet, hgone⟩
      have hrest : Awaiting c ds ps t := awaiting_of_changes hps hquiet.changes fun l hl _ heq =>
        hloc (heq ▸ hl)
      dsimp only
      refine (ih hrest hnodup.2).imp ?_
      rintro evs' y u ⟨rfl, hquiet', hgone'⟩
      rw [tempsOf_eq hquiet.changes] at hquiet' hgone'
      refine ⟨rfl, (hquiet.mono hone).append (hquiet'.mono (tempsOf_subset_cons _ _)), ?_⟩
      rintro hd l ⟨y, hy, hplace⟩
      have hdt := deletes_of_changes hd hquiet.changes
      rcases List.mem_cons.mp hy with rfl | hy
      · have hl : loc = l := Option.some.inj (hcomplete.place.symm.trans hplace)
        rw [← hl, hquiet'.changes.files loc hloc]
        exact hgone hd
      · exact hgone' hdt l ⟨y, hy, hplace⟩

theorem file?_of_place {name : String} (h : place? s name = some loc) :
    s.file? name = fileAt s loc := by
  rw [file?_eq, h, Option.bind_some]

theorem file?_of_changes {name : String} (h : Changes n P s t)
    (hname : ∀ loc, place? s name = some loc → loc ∉ P) : t.file? name = s.file? name := by
  rw [file?_eq, file?_eq, h.places]
  cases hp : place? s name with
  | none => rfl
  | some loc => exact h.files loc (hname loc hp)

/-- Each published index is what it was, or the whole file of the documents' index. -/
def Whole (c : AnalyzerConfig) (ds : List Document) (s t : Storage) : Prop :=
  ∀ f : Field, t.file? f.fileName = s.file? f.fileName ∨
    ∃ b, indexFile c ds f = some b ∧ t.file? f.fileName = some b

/-- The published indices of some fields are those of the documents, and the others are what they
were. -/
def Republished (c : AnalyzerConfig) (ds : List Document) (fs : List Field) (s t : Storage) :
    Prop :=
  ∀ f : Field, (f ∈ fs → ∃ b, indexFile c ds f = some b ∧ t.file? f.fileName = some b) ∧
    (f ∉ fs → t.file? f.fileName = s.file? f.fileName)

theorem Republished.whole {fs : List Field} (h : Republished c ds fs s t) : Whole c ds s t := by
  intro f
  by_cases hf : f ∈ fs
  · exact .inr ((h f).1 hf)
  · exact .inl ((h f).2 hf)

theorem Whole.trans (h : Whole c ds s t) (h' : Whole c ds t u) : Whole c ds s u := by
  intro f
  rcases h' f with hf | hf
  · rw [hf]
    exact h f
  · exact .inr hf

theorem Republished.cons {fs : List Field} (h : Republished c ds [f] s t)
    (h' : Republished c ds fs t u) : Republished c ds (f :: fs) s u := by
  intro g
  by_cases hg : g ∈ fs
  · exact ⟨fun _ => (h' g).1 hg, fun hnot => absurd (List.mem_cons_of_mem f hg) hnot⟩
  · rw [(h' g).2 hg]
    constructor
    · intro hmem
      exact (h g).1 (by simpa [hg] using hmem)
    · intro hnot
      exact (h g).2 (by simpa [hg] using hnot)

theorem Republished.after {fs : List Field} (h : Republished c ds [] s t)
    (h' : Republished c ds fs t u) : Republished c ds fs s u := by
  intro f
  refine ⟨(h' f).1, fun hf => ?_⟩
  rw [(h' f).2 hf, (h f).2 List.not_mem_nil]

theorem Republished.before {fs : List Field} (h : Republished c ds fs s t)
    (h' : Republished c ds [] t u) : Republished c ds fs s u := by
  intro f
  rw [(h' f).2 List.not_mem_nil]
  exact h f

theorem republished_nil (h : Changes n P s t) (hP : ∀ loc ∈ P, loc ∉ lives s) :
    Republished c ds [] s t := by
  intro f
  refine ⟨fun hf => absurd hf List.not_mem_nil, fun _ => ?_⟩
  exact file?_of_changes h fun loc hloc hp => hP loc hp ⟨f, hloc⟩

theorem republished_single {target : Location} (h : Changes n {loc, target} s t)
    (hloc : loc ∉ lives s) (htarget : place? s f.fileName = some target)
    (hb : indexFile c ds f = some b) (ht : fileAt t target = some b) :
    Republished c ds [f] s t := by
  intro g
  refine ⟨fun hg => ?_, fun hg => ?_⟩
  · obtain rfl := List.mem_singleton.mp hg
    refine ⟨b, hb, ?_⟩
    rw [file?_of_place ((h.places _).trans htarget), ht]
  · have hne : f ≠ g := fun heq => hg (heq ▸ List.mem_singleton_self f)
    refine file?_of_changes h fun l hl => ?_
    rintro (rfl | rfl)
    · exact hloc ⟨g, hl⟩
    · refine place?_ne (plain_fileName f) (plain_fileName g) ?_ htarget hl
      exact fun heq => hne (fileName_injective heq)

theorem tempsOf_not_lives {ps : List (Field × Pending)} (hw : Awaiting c ds ps s) :
    ∀ loc ∈ tempsOf ps s, loc ∉ lives s := by
  rintro loc ⟨x, hx, hplace⟩ ⟨g, hg⟩
  obtain ⟨hname, loc', b, -, hcomplete⟩ := hw x hx
  have hloc : loc' = loc := Option.some.inj (hcomplete.place.symm.trans hplace)
  exact place_ne_live hname hcomplete g (hloc ▸ hg)

structure Moment (n : Nat) (c : AnalyzerConfig) (ds : List Document) (P : Set Location)
    (s t : Storage) : Prop where
  changes : Changes n (P ∪ lives s) s t
  whole : Whole c ds s t

theorem Moment.trans (h : Moment n c ds P s t) (h' : Moment n c ds Q t u) (hq : Q ⊆ P) :
    Moment n c ds P s u := by
  refine ⟨h.changes.trans (h'.changes.mono ?_), h.whole.trans h'.whole⟩
  rw [lives_eq h.changes]
  exact Set.union_subset_union_left _ hq

theorem moment_of_changes (h : Changes n P s t) (hP : ∀ loc ∈ P, loc ∉ lives s) :
    Moment n c ds P s t :=
  ⟨h.mono Set.subset_union_left, (republished_nil h hP).whole⟩

theorem moment_of_renamed {x : Field × Pending} {ps : List (Field × Pending)} {target : Location}
    (h : Changes n {loc, target} s t) (hplace : place? s x.2.temporary = some loc)
    (hloc : loc ∉ lives s) (htarget : place? s x.1.fileName = some target)
    (hb : indexFile c ds x.1 = some b) (ht : fileAt t target = some b) :
    Moment n c ds (tempsOf (x :: ps) s) s t := by
  refine ⟨h.mono ?_, (republished_single h hloc htarget hb ht).whole⟩
  rintro l (rfl | rfl)
  · exact .inl ⟨x, List.mem_cons_self, hplace⟩
  · exact .inr ⟨x.1, htarget⟩

theorem awaiting_of_renamed {ps : List (Field × Pending)} {target : Location}
    (hw : Awaiting c ds ps s) (hloc : loc ∉ tempsOf ps s)
    (htarget : place? s f.fileName = some target) (hc : Changes n {loc, target} s t) :
    Awaiting c ds ps t := by
  refine awaiting_of_changes hw hc fun l hl _ => ?_
  rintro (rfl | rfl)
  · exact hloc hl
  · exact tempsOf_not_lives hw l hl ⟨f, htarget⟩

/-- What publishing pending indices does, given its calls and what comes of it. Either all fields
have new indices, or those before the one whose renaming has failed. -/
structure Published {β : Type} (n : Nat) (c : AnalyzerConfig) (ds : List Document)
    (ps : List (Field × Pending)) (s : Storage) (evs : List Event) (x : Except Error β)
    (t : Storage) : Prop where
  moments : ∀ ev ∈ evs, Moment n c ds (tempsOf ps s) s ev.after
  last : Moment n c ds (tempsOf ps s) s t
  removed : Deletes s → ∀ loc ∈ tempsOf ps s, fileAt t loc = none
  outcome : (∃ out, x = .ok out) ∧ failedRenames evs = [] ∧ Republished c ds (ps.map (·.1)) s t ∨
    ∃ f e, f ∈ ps.map (·.1) ∧ x = .error e ∧ failedRenames evs = [(f.fileName, e)] ∧
      Republished c ds ((ps.map (·.1)).takeWhile (· ≠ f)) s t

variable {x : Field × Pending} {ps : List (Field × Pending)} {evs evs' : List Event}

theorem published_cons {β γ : Type} {target : Location} {z : Except Error β} {z' : Except Error γ}
    (hw : Awaiting c ds (x :: ps) s) (hnew : x.1 ∉ ps.map (·.1)) (hcomplete : Complete x.2 b loc s)
    (hb : indexFile c ds x.1 = some b) (htarget : place? s x.1.fileName = some target)
    (hquiet : Quiet n {loc, target} s evs t) (hevs : ∀ ev ∈ evs, fileAt ev.after target = some b)
    (hgone : fileAt t loc = none) (ht : fileAt t target = some b)
    (h : Published n c ds ps t evs' z u) (hok : (∃ out, z = .ok out) → ∃ out, z' = .ok out)
    (herror : ∀ e, z = .error e → z' = .error e) :
    Published n c ds (x :: ps) s (evs ++ evs') z' u := by
  have hname := (hw x List.mem_cons_self).1
  have hlive : loc ∉ lives s := tempsOf_not_lives hw loc ⟨x, List.mem_cons_self, hcomplete.place⟩
  have hloc : loc ∉ tempsOf ps t := by
    rw [tempsOf_eq hquiet.changes]
    exact not_mem_tempsOf hname hcomplete (fun y hy => hw y (List.mem_cons_of_mem x hy)) hnew
  have hstep : ∀ v, Changes n {loc, target} s v → fileAt v target = some b →
      Moment n c ds (tempsOf (x :: ps) s) s v := fun v hv hbv =>
    moment_of_renamed hv hcomplete.place hlive htarget hb hbv
  have hmoment := hstep t hquiet.changes ht
  have hrepublished := republished_single hquiet.changes hlive htarget hb ht
  have hsub : tempsOf ps t ⊆ tempsOf (x :: ps) s := by
    rw [tempsOf_eq hquiet.changes]
    exact tempsOf_subset_cons x ps
  refine ⟨?_, hmoment.trans h.last hsub, ?_, ?_⟩
  · refine List.forall_mem_append.mpr ⟨fun ev hev => ?_, fun ev hev => ?_⟩
    · exact hstep ev.after (hquiet.within ev hev) (hevs ev hev)
    · exact hmoment.trans (h.moments ev hev) hsub
  · rintro hd l ⟨y, hy, hplace⟩
    rcases List.mem_cons.mp hy with rfl | hy
    · have hl : loc = l := Option.some.inj (hcomplete.place.symm.trans hplace)
      rw [← hl, h.last.changes.files loc ?_, hgone]
      rw [lives_eq hquiet.changes]
      rintro (hmem | hmem)
      · exact hloc hmem
      · exact hlive hmem
    · exact h.removed (deletes_of_changes hd hquiet.changes) l
        ⟨y, hy, (hquiet.changes.places _).trans hplace⟩
  · rw [failedRenames_append, hquiet.renamed, List.nil_append, List.map_cons]
    rcases h.outcome with ⟨hz, hfailed, hall⟩ | ⟨f, e, hf, hz, hfailed, hbefore⟩
    · exact .inl ⟨hok hz, hfailed, hrepublished.cons hall⟩
    · refine .inr ⟨f, e, List.mem_cons_of_mem _ hf, herror e hz, hfailed, ?_⟩
      have hne : x.1 ≠ f := fun heq => hnew (heq ▸ hf)
      rw [List.takeWhile_cons_of_pos (by simpa using hne)]
      exact hrepublished.cons hbefore

theorem published_error {β : Type} {e : Error} (hw : Awaiting c ds (x :: ps) s)
    (hnew : x.1 ∉ ps.map (·.1)) (hcomplete : Complete x.2 b loc s)
    (hfailed : failedRenames evs = [(x.1.fileName, e)])
    (hwithin : ∀ ev ∈ evs, Changes n {loc} s ev.after) (hc : Changes n {loc} s t)
    (hgone : Deletes s → fileAt t loc = none) (hquiet : Quiet n (tempsOf ps t) t evs' u)
    (hgone' : Deletes t → ∀ loc ∈ tempsOf ps t, fileAt u loc = none) :
    Published n c ds (x :: ps) s (evs ++ evs') (.error e : Except Error β) u := by
  have hname := (hw x List.mem_cons_self).1
  have hone := singleton_subset_tempsOf ps hcomplete.place
  rw [tempsOf_eq hc] at hquiet hgone'
  have hloc : loc ∉ tempsOf ps s :=
    not_mem_tempsOf hname hcomplete (fun y hy => hw y (List.mem_cons_of_mem x hy)) hnew
  have hchanges : ∀ v, Changes n (tempsOf ps s) t v → Changes n (tempsOf (x :: ps) s) s v :=
    fun v hv => (hc.mono hone).trans (hv.mono (tempsOf_subset_cons x ps))
  have hlives := tempsOf_not_lives hw
  refine ⟨?_, moment_of_changes (hchanges u hquiet.changes) hlives, ?_,
    .inr ⟨x.1, e, ?_, rfl, ?_, ?_⟩⟩
  · refine List.forall_mem_append.mpr ⟨fun ev hev => ?_, fun ev hev => ?_⟩
    · exact moment_of_changes ((hwithin ev hev).mono hone) hlives
    · exact moment_of_changes (hchanges ev.after (hquiet.within ev hev)) hlives
  · rintro hd l ⟨y, hy, hplace⟩
    rcases List.mem_cons.mp hy with rfl | hy
    · have hl : loc = l := Option.some.inj (hcomplete.place.symm.trans hplace)
      rw [← hl, hquiet.changes.files loc hloc]
      exact hgone hd
    · exact hgone' (deletes_of_changes hd hc) l ⟨y, hy, hplace⟩
  · exact List.mem_cons_self
  · rw [failedRenames_append, hfailed, hquiet.renamed]
    rfl
  · rw [List.map_cons, List.takeWhile_cons_of_neg (by simp)]
    exact republished_nil (hchanges u hquiet.changes) hlives

theorem publishingAll_spec (n : Nat) (hw : Awaiting c ds ps s) (hnodup : (ps.map (·.1)).Nodup) :
    Ensures (publishingAll ps) s (Published n c ds ps s) := by
  induction ps generalizing s with
  | nil =>
      have hlives := tempsOf_not_lives hw
      refine ⟨by rintro ev ⟨⟩, moment_of_changes (Changes.refl s) hlives, ?_,
        .inl ⟨⟨[], rfl⟩, rfl, republished_nil (Changes.refl (n := n) s) hlives⟩⟩
      rintro - loc ⟨x, hx, -⟩
      cases hx
  | cons x ps ih =>
      obtain ⟨⟨hname, loc, b, hb, hcomplete⟩, hps⟩ := List.forall_mem_cons.mp hw
      rw [List.map_cons, List.nodup_cons] at hnodup
      have hloc := not_mem_tempsOf hname hcomplete hps hnodup.1
      have hlive : place? s x.2.name ≠ some loc := hname ▸ place_ne_live hname hcomplete x.1
      obtain ⟨f, p⟩ := x
      rw [publishingAll, ensures_bind_iff, ensures_tryCatch_iff]
      refine (publishing_spec n hcomplete hlive).imp ?_
      rintro evs y t (⟨target, rfl, htarget, hquiet, hevs, hs, ht⟩ |
        ⟨e, rfl, hfailed, hwithin, hc, hgone⟩)
      · rw [hname] at htarget
        have hrest := awaiting_of_renamed hps hloc htarget hquiet.changes
        dsimp only
        rw [ensures_bind_iff]
        apply (ih hrest hnodup.2).imp
        intro evs' z u hpublished
        cases z with
        | ok out =>
            dsimp only
            rw [ensures_pure_iff, List.append_nil]
            exact published_cons hw hnodup.1 hcomplete hb htarget hquiet hevs hs ht hpublished
              (fun _ => ⟨_, rfl⟩) (by rintro e ⟨⟩)
        | error e =>
            exact published_cons hw hnodup.1 hcomplete hb htarget hquiet hevs hs ht hpublished
              (by rintro ⟨out, ⟨⟩⟩) fun _ h => h
      · rw [hname] at hfailed
        have hrest : Awaiting c ds ps t :=
          awaiting_of_changes hps hc fun l hl _ heq => hloc (heq ▸ hl)
        dsimp only
        rw [ensures_bind_iff]
        apply (discardingAll_spec n hrest hnodup.2).imp
        rintro evs' z u ⟨rfl, hquiet, hgone'⟩
        dsimp only
        rw [ensures_throw_iff, List.append_nil]
        exact published_error hw hnodup.1 hcomplete hfailed hwithin hc hgone hquiet hgone'

end Concordance.Proofs.Updates
