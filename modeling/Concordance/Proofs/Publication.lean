import Concordance.Proofs.Outputs

namespace Concordance.Proofs.Publication

open Index Places Frames Calls Outputs Scripts
open Storing (temporaryName)

def Deletes (s : Storage) : Prop := ∀ clock name, s.plan.refuses clock .delete name = false

theorem not_refusable {s : Storage} (h : Deletes s) (name : String) :
    ¬ Refusable s .delete name := by
  rintro ⟨clock, hr⟩
  rw [h clock name] at hr
  cases hr

def failedRename? (ev : Event) : Option (String × Error) :=
  match ev.request, ev.failure with
  | .rename _ new, some e => some (new, e)
  | _, _ => none

def failedRenames (evs : List Event) : List (String × Error) := evs.filterMap failedRename?

/-- The calls and the storage that they leave change nothing but at the given places, and no call
fails to rename. -/
structure Quiet (n : Nat) (P : Set Location) (s : Storage) (evs : List Event) (t : Storage) :
    Prop where
  within : ∀ ev ∈ evs, Changes n P s ev.after
  renamed : failedRenames evs = []
  changes : Changes n P s t

section

variable {n : Nat} {P Q : Set Location} {s t u : Storage} {evs evs' : List Event}

theorem failedRenames_append :
    failedRenames (evs ++ evs') = failedRenames evs ++ failedRenames evs' :=
  List.filterMap_append

theorem within_append (hc : Changes n P s t) (h : ∀ ev ∈ evs, Changes n P s ev.after)
    (h' : ∀ ev ∈ evs', Changes n P t ev.after) : ∀ ev ∈ evs ++ evs', Changes n P s ev.after :=
  List.forall_mem_append.mpr ⟨h, fun ev hev => hc.trans (h' ev hev)⟩

theorem Quiet.nil (s : Storage) : Quiet n P s [] s := ⟨by simp, rfl, Changes.refl s⟩

theorem Quiet.call {r : Request} {x : Option Error} (h : Changes n P s t)
    (hr : failedRename? ⟨r, x, t⟩ = none) : Quiet n P s [⟨r, x, t⟩] t :=
  ⟨List.forall_mem_singleton.mpr h, by simp [failedRenames, hr], h⟩

theorem Quiet.append (h : Quiet n P s evs t) (h' : Quiet n P t evs' u) :
    Quiet n P s (evs ++ evs') u :=
  ⟨within_append h.changes h.within h'.within,
    by rw [failedRenames_append, h.renamed, h'.renamed]; rfl, h.changes.trans h'.changes⟩

theorem Quiet.mono (h : Quiet n P s evs t) (hpq : P ⊆ Q) : Quiet n Q s evs t :=
  ⟨fun ev hev => (h.within ev hev).mono hpq, h.renamed, h.changes.mono hpq⟩

theorem deletes_of_changes (h : Deletes s) (hc : Changes n P s t) : Deletes t := by
  rw [Deletes, hc.plan]
  exact h

end

variable {n : Nat} {s : Storage} {name : String} {loc : Location}

theorem removal_spec (n : Nat) (hp : place? s name = some loc) (hf : fileAt s loc ≠ none)
    (w : Error → Warning) :
    Ensures (tryCatch (Script.call (.delete name)) fun e => Script.call (.warn (w e))) s
      fun evs x t => x = .ok () ∧ Quiet n {loc} s evs t ∧ (Deletes s → fileAt t loc = none) := by
  rw [ensures_tryCatch_iff]
  rcases delete_cases n hp hf with ⟨⟨e, t, ha, hc, -⟩, hr⟩ | ⟨t, ha, hc, hnone⟩
  · obtain ⟨u, hw, hcw⟩ := warn_spec n (w e) t
    rw [ensures_call_error ha]
    dsimp only
    rw [ensures_call_ok hw]
    have hquiet : Quiet n ∅ s ([⟨.delete name, some e, t⟩] ++ [⟨.warn (w e), none, u⟩]) u :=
      (Quiet.call hc rfl).append (Quiet.call hcw rfl)
    exact ⟨rfl, hquiet.mono (Set.empty_subset _), fun hd => absurd hr (not_refusable hd name)⟩
  · rw [ensures_call_ok ha]
    exact ⟨rfl, Quiet.call hc rfl, fun _ => hnone⟩

theorem removingTemporary_spec (n : Nat) (hp : place? s name = some loc)
    (hf : fileAt s loc ≠ none) : Ensures (removingTemporary name) s fun evs x t =>
      x = .ok () ∧ Quiet n {loc} s evs t ∧ (Deletes s → fileAt t loc = none) :=
  removal_spec n hp hf fun e => .temporaryLeft name e

theorem writingParts_spec {acc : Bytes} {o : Output} (h : Writes n loc acc o s)
    (parts : List Bytes) : Ensures (writingParts o parts) s fun evs x t =>
      ∃ y o', x = .ok (y, o') ∧ Quiet n {loc} s evs t ∧
        (y = .ok () ∧ fileAt t loc = some (acc ++ parts.flatten) ∧ Settled o' ∨
          ∃ e acc', y = .error e ∧ Writes n loc acc' o' t) := by
  induction parts generalizing acc o s with
  | nil =>
      obtain ⟨o', t, ha, hc, hw⟩ := h.flush
      obtain ⟨o'', u, ha', hc', hf, hsettled⟩ := hw.close
      rw [writingParts, ensures_call_bind ha]
      dsimp only
      rw [ensures_call_ok ha']
      refine ⟨_, o'', rfl, (Quiet.call hc rfl).append (Quiet.call hc' rfl),
        .inl ⟨rfl, ?_, hsettled⟩⟩
      rw [List.flatten_nil, List.append_nil]
      exact hf
  | cons b parts ih =>
      obtain ⟨y, o', t, ha, hc, hy⟩ := h.write b
      rw [writingParts, ensures_call_bind ha]
      rcases hy with ⟨rfl, hw, -⟩ | ⟨hne, -, hw⟩
      · apply (ih hw).imp
        rintro evs x u ⟨z, o'', rfl, hq, hz⟩
        refine ⟨z, o'', rfl, (Quiet.call hc rfl).append hq, ?_⟩
        rw [List.flatten_cons, ← List.append_assoc]
        exact hz
      · cases y with
        | ok a => exact absurd rfl hne
        | error e => exact ⟨_, o', rfl, Quiet.call hc rfl, .inr ⟨e, acc, rfl, hw⟩⟩

/-- Places for the temporary files of an index where nothing lies. -/
def spare (s : Storage) (stem : String) : Set Location :=
  {loc | fileAt s loc = none ∧ ∃ i, place? s (temporaryName stem i) = some loc}

/-- A pending index lies complete in its temporary file. -/
structure Complete (p : Pending) (b : Bytes) (loc : Location) (s : Storage) : Prop where
  temporary : ∃ i, p.temporary = temporaryName p.name i
  place : place? s p.temporary = some loc
  bytes : fileAt s loc = some b

theorem changes_of_removed {t : Storage} (h : Changes n {loc} s t) (hs : fileAt s loc = none)
    (ht : fileAt t loc = none) : Changes n ∅ s t := by
  apply h.shrink
  rintro l rfl -
  rw [hs, ht]

theorem abandoning_spec {t : Storage} {acc : Bytes} {o : Output} {evs : List Event} (e : Error)
    (hquiet : Quiet n {loc} s evs t) (hp : place? s name = some loc) (hnone : fileAt s loc = none)
    (hw : Writes n loc acc o t) :
    Ensures (do Script.call (.drop o); removingTemporary name; throw e : Script Pending) t
      fun evs' x u => x = .error e ∧ Quiet n {loc} s (evs ++ evs') u ∧
        (Deletes s → Changes n ∅ s u) := by
  obtain ⟨u, hdrop, hc, hf⟩ := hw.drop
  have hdropped : Quiet n {loc} s (evs ++ [⟨.drop o, none, u⟩]) u :=
    hquiet.append (Quiet.call hc rfl)
  have hpu : place? u name = some loc := by rw [hdropped.changes.places, hp]
  rw [ensures_call_bind hdrop, ensures_bind_iff]
  apply (removingTemporary_spec n hpu (by simp [hf])).imp
  rintro evs' x v ⟨rfl, hq, hgone⟩
  have hall := hdropped.append hq
  dsimp only
  rw [ensures_throw_iff]
  refine ⟨rfl, by simpa using hall, fun hd => ?_⟩
  exact changes_of_removed hall.changes hnone (hgone (deletes_of_changes hd hdropped.changes))

theorem preparing_spec (hn : n ≤ fileCount s) (b : Builder) (name : String) :
    Ensures (b.preparing name) s fun evs x t => Quiet n (spare s name) s evs t ∧
      (∀ p, x = .ok p → ∃ loc parts, p.name = name ∧ b.finish = .ok (parts, p.summary) ∧
        Complete p parts.flatten loc t ∧ loc ∈ spare s name ∧ Changes n {loc} s t) ∧
      ∀ e, x = .error e → Deletes s → Changes n ∅ s t := by
  rw [Builder.preparing]
  rcases createTemporary_cases hn name with
    ⟨e, t, ha, hc, -⟩ | ⟨i, loc, o, t, ha, hp, hnone, hc, hw, -⟩
  · rw [ensures_call_bind_error ha]
    refine ⟨(Quiet.call hc rfl).mono (Set.empty_subset _), ?_, fun _ _ _ => hc⟩
    intro p hp
    cases hp
  · have hspare : {loc} ⊆ spare s name := by
      rintro l rfl
      exact ⟨hnone, i, hp⟩
    have hcreated : Quiet n {loc} s [⟨.createTemporary name, none, t⟩] t := Quiet.call hc rfl
    rw [ensures_call_bind ha]
    dsimp only
    cases hfinish : b.finish with
    | error f =>
        apply (abandoning_spec (.format f) hcreated hp hnone hw).imp
        rintro evs x u ⟨rfl, hquiet, hgone⟩
        refine ⟨hquiet.mono hspare, ?_, fun _ _ hd => hgone hd⟩
        intro p hp
        cases hp
    | ok out =>
        obtain ⟨parts, summary⟩ := out
        dsimp only
        rw [ensures_bind_iff]
        apply (writingParts_spec hw parts).imp
        rintro evs x u ⟨y, o', rfl, hq, hy⟩
        have hwritten := hcreated.append hq
        dsimp only
        rcases hy with ⟨rfl, hf, hsettled⟩ | ⟨e, acc, rfl, hw'⟩
        · obtain ⟨v, hdrop, hcv⟩ := drop_of_settled n u hsettled
          rw [ensures_call_bind hdrop]
          dsimp only
          rw [ensures_pure_iff]
          have hquiet : Quiet n {loc} s ([⟨.createTemporary name, none, t⟩] ++ evs ++
              [⟨.drop o', none, v⟩]) v :=
            hwritten.append (Quiet.call (hcv.mono (Set.empty_subset {loc})) rfl)
          refine ⟨hquiet.mono hspare, ?_, ?_⟩
          · intro p hp
            cases hp
            refine ⟨loc, parts, rfl, rfl, ⟨⟨i, rfl⟩, ?_, ?_⟩, ⟨hnone, i, hp⟩, hquiet.changes⟩
            · rw [hquiet.changes.places, hp]
            · rw [hcv.files loc (by simp), hf]
              rfl
          · intro e he
            cases he
        · apply (abandoning_spec e hwritten hp hnone hw').imp
          rintro evs' x v ⟨rfl, hquiet, hgone⟩
          refine ⟨hquiet.mono hspare, ?_, fun _ _ hd => hgone hd⟩
          intro p hp
          cases hp

section

variable {p : Pending} {b : Bytes}

theorem Complete.present (h : Complete p b loc s) : fileAt s loc ≠ none := by
  rw [h.bytes]
  exact Option.some_ne_none b

theorem complete_of_changes {P : Set Location} {t : Storage} (h : Complete p b loc s)
    (hc : Changes n P s t) (hloc : loc ∉ P) : Complete p b loc t :=
  ⟨h.temporary, (hc.places _).trans h.place, (hc.files loc hloc).trans h.bytes⟩

theorem publishing_spec (n : Nat) (h : Complete p b loc s) (hne : place? s p.name ≠ some loc) :
    Ensures p.publishing s fun evs x t =>
      (∃ target, x = .ok p.summary ∧ place? s p.name = some target ∧
        Quiet n {loc, target} s evs t ∧ (∀ ev ∈ evs, fileAt ev.after target = some b) ∧
        fileAt t loc = none ∧ fileAt t target = some b) ∨
      ∃ e, x = .error e ∧ failedRenames evs = [(p.name, e)] ∧
        (∀ ev ∈ evs, Changes n {loc} s ev.after) ∧ Changes n {loc} s t ∧
        (Deletes s → fileAt t loc = none) := by
  rw [Pending.publishing, ensures_tryCatch_iff, ensures_bind_iff]
  rcases rename_cases n h.place h.bytes hne with
    ⟨e, t, ha, hc, -⟩ | ⟨t, target, ha, ht, hc, hs, hb⟩
  · rw [ensures_call_error ha]
    dsimp only
    rw [ensures_bind_iff]
    have hp : place? t p.temporary = some loc := by rw [hc.places, h.place]
    have hf : fileAt t loc ≠ none := by
      rw [hc.files loc (by simp)]
      exact h.present
    apply (removingTemporary_spec n hp hf).imp
    rintro evs x u ⟨rfl, hq, hgone⟩
    dsimp only
    rw [ensures_throw_iff, List.append_nil]
    have hc' := hc.mono (Set.empty_subset {loc})
    refine .inr ⟨e, rfl, ?_, ?_, hc'.trans hq.changes, fun hd => hgone (deletes_of_changes hd hc)⟩
    · rw [failedRenames_append, hq.renamed]
      rfl
    · exact within_append hc' (by simpa using hc') hq.within
  · rw [ensures_call_ok ha]
    dsimp only
    rw [ensures_pure_iff]
    exact .inl ⟨target, rfl, ht, Quiet.call hc rfl, by simpa using hb, hs, hb⟩

end

end Concordance.Proofs.Publication
