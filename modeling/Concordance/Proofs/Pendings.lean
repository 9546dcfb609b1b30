import Concordance.Proofs.Deliveries
import Concordance.Proofs.NameEndings

namespace Concordance.Proofs.Pendings

open Index Outcomes Places Frames Calls Scripts Publication NameEndings Deliveries
open Storing (temporaryName)

structure Desk where
  storage : Storage
  waiting : List (Builder × Pending)

inductive Action
  | prepare (b : Builder) (name : String)
  | publish (i : Nat)
  | discard (i : Nat)
  | commit (b : Builder) (name : String)

/-- The name that an action takes an index for is not that of a temporary file. -/
def Action.Lasting : Action → Prop
  | .prepare _ name => ¬ IsTemporary name
  | .commit _ name => ¬ IsTemporary name
  | .publish _ => True
  | .discard _ => True

def Desk.prepared (w : Desk) (b : Builder) : EStateM.Result Error Storage Pending → Desk
  | .ok p t => ⟨t, w.waiting ++ [(b, p)]⟩
  | .error _ t => ⟨t, w.waiting⟩

/-- Publishing or discarding an index ends its wait, also if that fails. -/
def Desk.step (w : Desk) : Action → Desk
  | .prepare b name => w.prepared b (b.prepare name w.storage)
  | .publish i =>
      match w.waiting[i]? with
      | none => w
      | some (_, p) => ⟨stateOf (p.publish w.storage), w.waiting.eraseIdx i⟩
  | .discard i =>
      match w.waiting[i]? with
      | none => w
      | some (_, p) => ⟨stateOf (p.discard w.storage), w.waiting.eraseIdx i⟩
  | .commit b name => ⟨stateOf (b.commit name w.storage), w.waiting⟩

def run (s : Storage) (actions : List Action) : Desk := actions.foldl Desk.step ⟨s, []⟩

def committing (b : Builder) (name : String) : Script Summary := do
  (← b.preparing name).publishing

theorem run_bind {α β : Type} (sc : Script α) (f : α → Script β) :
    (sc >>= f).run = sc.run >>= fun a => (f a).run := by
  funext s
  induction sc generalizing s with
  | done a => rfl
  | fail e => rfl
  | ask r next ih => exact ih (r.answer s).1 (r.answer s).2

theorem commit_eq (b : Builder) (name : String) (s : Storage) :
    b.commit name s = (committing b name).run s :=
  (congrFun (run_bind (b.preparing name) Pending.publishing) s).symm

def Kept (P : Set Location) (s t : Storage) : Prop := ∀ loc ∉ P, fileAt t loc = fileAt s loc

def placeOf (s : Storage) (name : String) : Set Location := {loc | place? s name = some loc}

def Installed (b : Builder) (name : String) (summary : Summary) (t : Storage) : Prop :=
  ∃ parts, b.finish = .ok (parts, summary) ∧ t.file? name = some parts.flatten

/-- What an action does to the files, at each moment and in the end. -/
def Does (w : Desk) : Action → Prop
  | .prepare b name =>
      (∀ t ∈ (b.preparing name).moments w.storage, Kept (spare w.storage name) w.storage t) ∧
      (∀ e t, b.prepare name w.storage = .error e t → Kept ∅ w.storage t) ∧
      ∀ p t, b.prepare name w.storage = .ok p t → p.name = name ∧ IsTemporary p.temporary ∧
        Kept (placeOf w.storage p.temporary) w.storage t
  | .publish i => ∀ b p, w.waiting[i]? = some (b, p) →
      (∀ t ∈ p.publishing.moments w.storage,
        Kept (placeOf w.storage p.temporary ∪ placeOf w.storage p.name) w.storage t) ∧
      (∀ e t, p.publish w.storage = .error e t →
        Kept (placeOf w.storage p.temporary) w.storage t) ∧
      ∀ summary t, p.publish w.storage = .ok summary t → Installed b p.name summary t ∧
        Kept (placeOf w.storage p.temporary ∪ placeOf w.storage p.name) w.storage t
  | .discard i => ∀ b p, w.waiting[i]? = some (b, p) →
      ∃ t, p.discard w.storage = .ok () t ∧ Kept (placeOf w.storage p.temporary) w.storage t
  | .commit b name =>
      (∀ t ∈ (committing b name).moments w.storage,
        Kept (spare w.storage name ∪ placeOf w.storage name) w.storage t) ∧
      (∀ e t, b.commit name w.storage = .error e t → Kept ∅ w.storage t) ∧
      ∀ summary t, b.commit name w.storage = .ok summary t → Installed b name summary t ∧
        Kept (placeOf w.storage name) w.storage t

/-- Every waiting index lies whole in a temporary file of its own. The temporary files that were
there at first are as they were, and there are no others. -/
structure Orderly (s₀ : Storage) (w : Desk) : Prop where
  plan : w.storage.plan = s₀.plan
  places : ∀ name, place? w.storage name = place? s₀ name
  whole : ∀ x ∈ w.waiting, ¬ IsTemporary x.2.name ∧ ∃ loc parts,
    x.1.finish = .ok (parts, x.2.summary) ∧ Complete x.2 parts.flatten loc w.storage
  distinct : (w.waiting.map fun x => place? s₀ x.2.temporary).Nodup
  spared : ∀ loc ∈ temporaries, fileAt s₀ loc ≠ none → fileAt w.storage loc = fileAt s₀ loc
  owned : ∀ loc ∈ temporaries, fileAt s₀ loc = none ∧ fileAt w.storage loc ≠ none ↔
    ∃ x ∈ w.waiting, place? s₀ x.2.temporary = some loc

variable {s₀ s t : Storage} {P : Set Location} {b : Builder} {p : Pending} {name : String}
  {loc : Location} {bytes : Bytes} {ws l₁ l₂ : List (Builder × Pending)} {x : Builder × Pending}

theorem kept_moments {α : Type} {sc : Script α} (h : ∀ ev ∈ sc.events s, Changes 0 P s ev.after) :
    ∀ t ∈ sc.moments s, Kept P s t := by
  intro t ht
  rcases List.mem_cons.mp ht with rfl | ht
  · exact fun _ _ => rfl
  · obtain ⟨ev, hev, rfl⟩ := List.mem_map.mp ht
    exact (h ev hev).files

theorem orderly_empty (s₀ : Storage) : Orderly s₀ ⟨s₀, []⟩ where
  plan := rfl
  places _ := rfl
  whole := by simp
  distinct := List.nodup_nil
  spared _ _ _ := rfl
  owned loc _ := by simp

theorem Orderly.deletes (h : Orderly s₀ ⟨s, ws⟩) (hd : Deletes s₀) : Deletes s := by
  have hplan : s.plan = s₀.plan := h.plan
  rw [Deletes, hplan]
  exact hd

theorem temporary_mem (h : Complete p bytes loc s) : loc ∈ temporaries := by
  obtain ⟨i, hi⟩ := h.temporary
  exact (mem_temporaries_iff h.place).mpr (hi ▸ isTemporary_temporaryName p.name i)

theorem lasting_not_mem (hname : ¬ IsTemporary name) (h : place? s name = some loc) :
    loc ∉ temporaries := fun hmem => hname ((mem_temporaries_iff h).mp hmem)

theorem place_ne (hname : ¬ IsTemporary name) (h : Complete p bytes loc s) :
    place? s name ≠ some loc := fun hplace => lasting_not_mem hname hplace (temporary_mem h)

theorem Orderly.unchanged (h : Orderly s₀ ⟨s, ws⟩) (hc : Changes 0 ∅ s t) :
    Orderly s₀ ⟨t, ws⟩ where
  plan := hc.plan.trans h.plan
  places name := (hc.places name).trans (h.places name)
  whole x hx := by
    obtain ⟨hname, loc, parts, hfinish, hcomplete⟩ := h.whole x hx
    exact ⟨hname, loc, parts, hfinish, complete_of_changes hcomplete hc (Set.notMem_empty loc)⟩
  distinct := h.distinct
  spared loc hloc hfile := (hc.files loc (Set.notMem_empty loc)).trans (h.spared loc hloc hfile)
  owned loc hloc := by
    rw [hc.files loc (Set.notMem_empty loc)]
    exact h.owned loc hloc

theorem Orderly.fresh (h : Orderly s₀ ⟨s, ws⟩) (hloc : loc ∈ temporaries)
    (hnone : fileAt s loc = none) : fileAt s₀ loc = none := by
  by_contra hfile
  exact hfile ((h.spared loc hloc hfile).symm.trans hnone)

theorem Orderly.prepared (h : Orderly s₀ ⟨s, ws⟩) {parts : List Bytes}
    (hname : ¬ IsTemporary p.name) (hfinish : b.finish = .ok (parts, p.summary))
    (hcomplete : Complete p parts.flatten loc t) (hnone : fileAt s loc = none)
    (hc : Changes 0 {loc} s t) : Orderly s₀ ⟨t, ws ++ [(b, p)]⟩ := by
  have hmem : loc ∈ temporaries := temporary_mem hcomplete
  have hfresh : fileAt s₀ loc = none := h.fresh hmem hnone
  have hplace : place? s₀ p.temporary = some loc := by
    rw [← h.places, ← hc.places, hcomplete.place]
  have hold : ∀ x ∈ ws, place? s₀ x.2.temporary ≠ some loc := by
    intro x hx heq
    exact ((h.owned loc hmem).mpr ⟨x, hx, heq⟩).2 hnone
  have hother {l : Location} (hne : l ≠ loc) : fileAt t l = fileAt s l := hc.files l (by simpa)
  refine
    { plan := hc.plan.trans h.plan
      places := fun name => (hc.places name).trans (h.places name)
      whole := ?whole
      distinct := ?distinct
      spared := ?spared
      owned := ?owned }
  case whole =>
    intro x hx
    rcases List.mem_append.mp hx with hx | hx
    · obtain ⟨hlasting, l, ps, hps, hl⟩ := h.whole x hx
      refine ⟨hlasting, l, ps, hps, complete_of_changes hl hc ?_⟩
      rintro rfl
      exact hl.present hnone
    · obtain rfl := List.mem_singleton.mp hx
      exact ⟨hname, loc, parts, hfinish, hcomplete⟩
  case distinct =>
    rw [List.map_append, List.map_singleton, List.nodup_append]
    refine ⟨h.distinct, by simp, ?_⟩
    rintro l hl m hm rfl
    obtain ⟨x, hx, heq⟩ := List.mem_map.mp hl
    rw [List.mem_singleton.mp hm, hplace] at heq
    exact hold x hx heq
  case spared =>
    intro l hl hfile
    have hne : l ≠ loc := fun heq => hfile (heq ▸ hfresh)
    exact (hother hne).trans (h.spared l hl hfile)
  case owned =>
    intro l hl
    simp only [List.mem_append, List.mem_singleton, or_and_right, exists_or, exists_eq_left]
    by_cases hne : l = loc
    · subst hne
      exact ⟨fun _ => .inr hplace, fun _ => ⟨hfresh, hcomplete.present⟩⟩
    · have hnew : place? s₀ p.temporary ≠ some l := by
        rw [hplace]
        exact fun heq => hne (Option.some.inj heq).symm
      rw [hother hne, or_iff_left hnew]
      exact h.owned l hl

theorem Orderly.released (h : Orderly s₀ ⟨s, l₁ ++ x :: l₂⟩)
    (hplace : place? s x.2.temporary = some loc) (hP : P ∩ temporaries ⊆ {loc})
    (hc : Changes 0 P s t) (hgone : fileAt t loc = none) : Orderly s₀ ⟨t, l₁ ++ l₂⟩ := by
  have hplace₀ : place? s₀ x.2.temporary = some loc := by rw [← h.places, hplace]
  have hsub : (l₁ ++ l₂).Sublist (l₁ ++ x :: l₂) :=
    List.Sublist.append (List.Sublist.refl l₁) (List.sublist_cons_self x l₂)
  have hother {l : Location} (hl : l ∈ temporaries) (hne : l ≠ loc) : fileAt t l = fileAt s l :=
    hc.files l fun hmem => hne (hP ⟨hmem, hl⟩)
  have hrest : ∀ y ∈ l₁ ++ l₂, place? s₀ y.2.temporary ≠ some loc := by
    have hnodup := (h.distinct.perm (List.perm_middle.map _))
    rw [List.map_cons, List.nodup_cons, hplace₀] at hnodup
    exact fun y hy heq => hnodup.1 (List.mem_map.mpr ⟨y, hy, heq⟩)
  refine
    { plan := hc.plan.trans h.plan
      places := fun name => (hc.places name).trans (h.places name)
      whole := ?whole
      distinct := h.distinct.sublist (hsub.map _)
      spared := ?spared
      owned := ?owned }
  case whole =>
    intro y hy
    obtain ⟨hname, l, ps, hps, hl⟩ := h.whole y (hsub.subset hy)
    have hne : l ≠ loc := by
      rintro rfl
      exact hrest y hy (by rw [← h.places, hl.place])
    refine ⟨hname, l, ps, hps, complete_of_changes hl hc fun hmem => ?_⟩
    exact hne (hP ⟨hmem, temporary_mem hl⟩)
  case spared =>
    intro l hl hfile
    have hne : l ≠ loc := by
      rintro rfl
      exact hfile ((h.owned l hl).mpr ⟨x, by simp, hplace₀⟩).1
    exact (hother hl hne).trans (h.spared l hl hfile)
  case owned =>
    intro l hl
    by_cases hne : l = loc
    · subst hne
      simp only [hgone, ne_eq, not_true_eq_false, and_false, false_iff]
      rintro ⟨y, hy, heq⟩
      exact hrest y hy heq
    · have hold : place? s₀ x.2.temporary ≠ some l := by
        rw [hplace₀]
        exact fun heq => hne (Option.some.inj heq).symm
      dsimp only
      rw [hother hl hne]
      refine (h.owned l hl).trans ?_
      simp only [List.mem_append, List.mem_cons, or_and_right, exists_or, exists_eq_left, hold,
        false_or]

theorem split_of_getElem? {α : Type} {l : List α} {i : Nat} {x : α} (h : l[i]? = some x) :
    ∃ l₁ l₂, l = l₁ ++ x :: l₂ ∧ l.eraseIdx i = l₁ ++ l₂ := by
  induction l generalizing i with
  | nil => cases h
  | cons y l ih =>
      cases i with
      | zero =>
          cases h
          exact ⟨[], l, rfl, rfl⟩
      | succ i =>
          obtain ⟨l₁, l₂, rfl, herase⟩ := ih h
          exact ⟨y :: l₁, l₂, rfl, congrArg (y :: ·) herase⟩

theorem publishing_orderly (h : Orderly s₀ ⟨s, l₁ ++ (b, p) :: l₂⟩) (hd : Deletes s₀) :
    Ensures p.publishing s fun evs x t => Orderly s₀ ⟨t, l₁ ++ l₂⟩ ∧
      (∀ ev ∈ evs, Changes 0 (placeOf s p.temporary ∪ placeOf s p.name) s ev.after) ∧
      (∀ e, x = .error e → Changes 0 (placeOf s p.temporary) s t) ∧
      ∀ summary, x = .ok summary → Installed b p.name summary t ∧
        Changes 0 (placeOf s p.temporary ∪ placeOf s p.name) s t := by
  obtain ⟨hname, loc, parts, hfinish, hcomplete⟩ := h.whole (b, p) (by simp)
  dsimp only at hname hfinish hcomplete
  have htemporary : {loc} ⊆ placeOf s p.temporary := by
    rintro l rfl
    exact hcomplete.place
  have hsingle : ({loc} : Set Location) ∩ temporaries ⊆ {loc} := Set.inter_subset_left
  apply (publishing_spec 0 hcomplete (place_ne hname hcomplete)).imp
  rintro evs x t (⟨target, rfl, htarget, hquiet, -, hgone, hbytes⟩ |
    ⟨e, rfl, -, hwithin, hc, hgone⟩)
  · have hpair : {loc, target} ⊆ placeOf s p.temporary ∪ placeOf s p.name := by
      rintro l (rfl | rfl)
      · exact .inl hcomplete.place
      · exact .inr htarget
    have hpairs : ({loc, target} : Set Location) ∩ temporaries ⊆ {loc} := by
      rintro l ⟨rfl | rfl, hl⟩
      · rfl
      · exact absurd hl (lasting_not_mem hname htarget)
    refine ⟨h.released hcomplete.place hpairs hquiet.changes hgone, ?_, by rintro e ⟨⟩, ?_⟩
    · exact fun ev hev => (hquiet.within ev hev).mono hpair
    · rintro summary ⟨⟩
      refine ⟨⟨parts, hfinish, ?_⟩, hquiet.changes.mono hpair⟩
      rw [file?_eq, hquiet.changes.places, htarget, Option.bind_some, hbytes]
  · refine ⟨h.released hcomplete.place hsingle hc (hgone (h.deletes hd)), ?_, ?_,
      by rintro summary ⟨⟩⟩
    · exact fun ev hev =>
        (hwithin ev hev).mono (htemporary.trans Set.subset_union_left)
    · exact fun e _ => hc.mono htemporary

theorem preparing_orderly (h : Orderly s₀ ⟨s, ws⟩) (hd : Deletes s₀) (b : Builder)
    (hname : ¬ IsTemporary name) :
    Ensures (b.preparing name) s fun evs x t =>
      (∀ ev ∈ evs, Changes 0 (spare s name) s ev.after) ∧
      (∀ e, x = .error e → Changes 0 ∅ s t ∧ Orderly s₀ ⟨t, ws⟩) ∧
      ∀ p, x = .ok p → p.name = name ∧ IsTemporary p.temporary ∧
        Changes 0 (placeOf s p.temporary) s t ∧ placeOf s p.temporary ⊆ spare s name ∧
        Orderly s₀ ⟨t, ws ++ [(b, p)]⟩ := by
  apply (preparing_spec (Nat.zero_le _) b name).imp
  rintro evs x t ⟨hquiet, hok, herror⟩
  refine ⟨hquiet.within, ?_, ?_⟩
  · intro e he
    have hc := herror e he (h.deletes hd)
    exact ⟨hc, h.unchanged hc⟩
  · intro p hp
    obtain ⟨loc, parts, rfl, hfinish, hcomplete, hspare, hc⟩ := hok p hp
    have hplace : place? s p.temporary = some loc := by rw [← hc.places, hcomplete.place]
    obtain ⟨i, hi⟩ := hcomplete.temporary
    refine ⟨rfl, hi ▸ isTemporary_temporaryName p.name i, hc.mono ?_, ?_,
      h.prepared hname hfinish hcomplete hspare.1 hc⟩
    · rintro l rfl
      exact hplace
    · intro l hl
      obtain rfl := Option.some.inj (hplace.symm.trans hl)
      exact hspare

theorem discarding_orderly (h : Orderly s₀ ⟨s, l₁ ++ (b, p) :: l₂⟩) (hd : Deletes s₀) :
    Ensures p.discarding s fun _ x t => x = .ok () ∧
      Changes 0 (placeOf s p.temporary) s t ∧ Orderly s₀ ⟨t, l₁ ++ l₂⟩ := by
  obtain ⟨-, loc, parts, -, hcomplete⟩ := h.whole (b, p) (by simp)
  rcases delete_cases 0 hcomplete.place hcomplete.present with ⟨-, hr⟩ | ⟨t, ha, hc, hgone⟩
  · exact absurd hr (not_refusable (h.deletes hd) p.temporary)
  · rw [Pending.discarding, ensures_call_ok ha]
    refine ⟨rfl, hc.mono ?_, h.released hcomplete.place Set.inter_subset_left hc hgone⟩
    rintro l rfl
    exact hcomplete.place

theorem Orderly.shrink (h : Orderly s₀ ⟨s, ws⟩) (h' : Orderly s₀ ⟨t, ws⟩)
    (htemporary : IsTemporary p.temporary) (hspare : placeOf s p.temporary ⊆ spare s name)
    (hc : Changes 0 (placeOf s p.temporary ∪ P) s t) : Changes 0 P s t := by
  apply Changes.shrink hc
  rintro l (hl | hl) hP
  · have hmem : l ∈ temporaries := (mem_temporaries_iff hl).mpr htemporary
    have hnone : fileAt s l = none := (hspare hl).1
    rw [hnone]
    by_contra hfile
    obtain ⟨x, hx, heq⟩ := (h'.owned l hmem).mp ⟨h.fresh hmem hnone, hfile⟩
    exact ((h.owned l hmem).mpr ⟨x, hx, heq⟩).2 hnone
  · exact absurd hl hP

theorem placeOf_eq (hc : Changes 0 P s t) (name : String) : placeOf t name = placeOf s name := by
  rw [placeOf, placeOf, hc.places]

theorem committing_orderly (h : Orderly s₀ ⟨s, ws⟩) (hd : Deletes s₀) (b : Builder)
    (hname : ¬ IsTemporary name) :
    Ensures (committing b name) s fun evs x t => Orderly s₀ ⟨t, ws⟩ ∧
      (∀ ev ∈ evs, Changes 0 (spare s name ∪ placeOf s name) s ev.after) ∧
      (∀ e, x = .error e → Changes 0 ∅ s t) ∧
      ∀ summary, x = .ok summary → Installed b name summary t ∧
        Changes 0 (placeOf s name) s t := by
  rw [committing]
  refine (preparing_orderly h hd b hname).bind ?_ ?_
  · rintro evs p t ⟨hwithin, -, hok⟩
    obtain ⟨hpn, htemporary, hc, hspare, ht⟩ := hok p rfl
    apply (publishing_orderly ht hd).imp
    rw [List.append_nil, placeOf_eq hc, placeOf_eq hc, hpn]
    rintro evs' x u ⟨hu, hwithin', herror, hok⟩
    refine ⟨hu, ?_, ?_, ?_⟩
    · rw [List.forall_mem_append]
      refine ⟨fun ev hev => (hwithin ev hev).mono Set.subset_union_left, fun ev hev => ?_⟩
      exact (hc.mono (hspare.trans Set.subset_union_left)).trans
        ((hwithin' ev hev).mono (Set.union_subset_union_left _ hspare))
    · intro e he
      have hall : Changes 0 (placeOf s p.temporary ∪ ∅) s u :=
        (hc.trans (herror e he)).mono Set.subset_union_left
      exact h.shrink hu htemporary hspare hall
    · intro summary hsummary
      obtain ⟨hinstalled, hc'⟩ := hok summary hsummary
      exact ⟨hinstalled, h.shrink hu htemporary hspare ((hc.mono Set.subset_union_left).trans hc')⟩
  · rintro evs e t ⟨hwithin, herror, -⟩
    obtain ⟨hc, ht⟩ := herror e rfl
    refine ⟨ht, fun ev hev => (hwithin ev hev).mono Set.subset_union_left, fun _ _ => hc, ?_⟩
    rintro summary ⟨⟩

section

variable {w : Desk} {i : Nat}

theorem Orderly.split (h : Orderly s₀ w) (hi : w.waiting[i]? = some x) : ∃ l₁ l₂,
    Orderly s₀ ⟨w.storage, l₁ ++ x :: l₂⟩ ∧ w.waiting.eraseIdx i = l₁ ++ l₂ := by
  obtain ⟨l₁, l₂, hwaiting, herase⟩ := split_of_getElem? hi
  exact ⟨l₁, l₂, by rwa [← hwaiting], herase⟩

/-- One action keeps the temporary files in order. -/
theorem Orderly.step (h : Orderly s₀ w) (hd : Deletes s₀) {a : Action} (ha : a.Lasting) :
    Orderly s₀ (w.step a) := by
  cases a with
  | prepare b name =>
      have hprepare := preparing_orderly h hd b ha
      rw [Desk.step]
      cases hrun : b.prepare name w.storage with
      | ok p t => exact ((hprepare.run_ok hrun).2.2 p rfl).2.2.2.2
      | error e t => exact ((hprepare.run_error hrun).2.1 e rfl).2
  | publish i =>
      rw [Desk.step]
      cases hi : w.waiting[i]? with
      | none => exact h
      | some x =>
          obtain ⟨l₁, l₂, hsplit, herase⟩ := h.split hi
          obtain ⟨y, hy, -⟩ := (publishing_orderly hsplit hd).leaves
          dsimp only
          rw [herase]
          exact hy
  | discard i =>
      rw [Desk.step]
      cases hi : w.waiting[i]? with
      | none => exact h
      | some x =>
          obtain ⟨l₁, l₂, hsplit, herase⟩ := h.split hi
          obtain ⟨y, -, -, hy⟩ := (discarding_orderly hsplit hd).leaves
          dsimp only
          rw [herase]
          exact hy
  | commit b name =>
      obtain ⟨y, hy, -⟩ := (committing_orderly h hd b ha).leaves
      rw [Desk.step, commit_eq]
      exact hy

theorem Orderly.does (h : Orderly s₀ w) (hd : Deletes s₀) {a : Action} (ha : a.Lasting) :
    Does w a := by
  cases a with
  | prepare b name =>
      have hprepare := preparing_orderly h hd b ha
      refine ⟨kept_moments hprepare.1, ?_, ?_⟩
      · intro e t hrun
        exact ((hprepare.run_error hrun).2.1 e rfl).1.files
      · intro p t hrun
        obtain ⟨hname, htemporary, hc, -⟩ := (hprepare.run_ok hrun).2.2 p rfl
        exact ⟨hname, htemporary, hc.files⟩
  | publish i =>
      intro b p hi
      obtain ⟨l₁, l₂, hsplit, -⟩ := h.split hi
      have hpublish := publishing_orderly hsplit hd
      refine ⟨kept_moments hpublish.2.1, ?_, ?_⟩
      · intro e t hrun
        exact ((hpublish.run_error hrun).2.2.1 e rfl).files
      · intro summary t hrun
        obtain ⟨hinstalled, hc⟩ := (hpublish.run_ok hrun).2.2.2 summary rfl
        exact ⟨hinstalled, hc.files⟩
  | discard i =>
      intro b p hi
      obtain ⟨l₁, l₂, hsplit, -⟩ := h.split hi
      have hdiscard := discarding_orderly hsplit hd
      cases hrun : p.discard w.storage with
      | ok _ t => exact ⟨t, rfl, (hdiscard.run_ok hrun).2.1.files⟩
      | error e t => cases (hdiscard.run_error hrun).1
  | commit b name =>
      have hcommit := committing_orderly h hd b ha
      refine ⟨kept_moments hcommit.2.1, ?_, ?_⟩
      · intro e t hrun
        rw [commit_eq] at hrun
        exact ((hcommit.run_error hrun).2.2.1 e rfl).files
      · intro summary t hrun
        rw [commit_eq] at hrun
        obtain ⟨hinstalled, hc⟩ := (hcommit.run_ok hrun).2.2.2 summary rfl
        exact ⟨hinstalled, hc.files⟩

end

/-- From any storage, if deleting cannot fail, every run of actions keeps the temporary files in
order, and whatever action is next does what it is for. -/
theorem run_orderly (s : Storage) (hd : Deletes s) (actions : List Action)
    (hlasting : ∀ a ∈ actions, a.Lasting) :
    Orderly s (run s actions) ∧ ∀ a : Action, a.Lasting → Does (run s actions) a := by
  have hrun : ∀ w, Orderly s w → Orderly s (actions.foldl Desk.step w) := by
    intro w h
    induction actions generalizing w with
    | nil => exact h
    | cons a actions ih =>
        rw [List.forall_mem_cons] at hlasting
        exact ih hlasting.2 (w.step a) (h.step hd hlasting.1)
  have h := hrun ⟨s, []⟩ (orderly_empty s)
  exact ⟨h, fun a ha => h.does hd ha⟩

theorem run_prepare (h : b.prepare name s = .ok p t) :
    run s [.prepare b name] = ⟨t, [(b, p)]⟩ := by
  simp only [run, List.foldl_cons, List.foldl_nil, Desk.step, Desk.prepared, h, List.nil_append]

def cluttered : Storage :=
  .ofBackend (.memory (.ofList [("a", Packed.ofBytes [1]), ("a_0.tmp", Packed.ofBytes [2])]))

def idle : Builder := Builder.ofConfig {}

theorem prepare_idle : ∃ p t, idle.prepare "a" cluttered = .ok p t := by
  have hfree : ¬ Crowded cluttered (.createTemporary "a") :=
    not_crowded (i := 1) (by decide) (by decide +kernel)
  have hfinish : idle.finish.isOk = true := by decide +kernel
  cases hout : idle.finish with
  | error e =>
      rw [hout] at hfinish
      cases hfinish
  | ok out =>
      obtain ⟨-, p, t, ho, -⟩ :=
        preparing_delivers hout (Set.subset_univ _) hfree (.inl (faultless_ofBackend _))
      exact ⟨p, t, run_of_outcome ho⟩

theorem run_orderly_cluttered : Deletes cluttered ∧ ¬ IsTemporary "a" ∧
    ∃ p t, run cluttered [.prepare idle "a"] = ⟨t, [(idle, p)]⟩ ∧
      Orderly cluttered ⟨t, [(idle, p)]⟩ ∧ Does ⟨t, [(idle, p)]⟩ (.publish 0) ∧
        fileAt t ["a_0.tmp"] = some [2] := by
  have hdeletes : Deletes cluttered := fun _ _ => rfl
  have hname : ¬ IsTemporary "a" := by decide
  obtain ⟨p, t, hprepare⟩ := prepare_idle
  have hrun := run_prepare hprepare
  have hstray : fileAt cluttered ["a_0.tmp"] = some [2] := by decide +kernel
  have htemporary : ["a_0.tmp"] ∈ temporaries := ⟨"a_0.tmp", rfl, by decide⟩
  obtain ⟨horderly, hdoes⟩ := run_orderly cluttered hdeletes [.prepare idle "a"]
    (List.forall_mem_singleton.mpr hname)
  rw [hrun] at horderly hdoes
  have hspared := horderly.spared _ htemporary (by simp [hstray])
  exact ⟨hdeletes, hname, p, t, hrun, horderly, hdoes (.publish 0) trivial, hspared.trans hstray⟩

end Concordance.Proofs.Pendings
