import Concordance.Proofs.Reopening

namespace Concordance.Proofs.Deliveries

open Analysis (AnalyzerConfig)
open Index Catalog Places Frames Calls Outputs Scripts Publication Updates Reopening
open Storing (temporaryName)

variable {K : Set (StorageCall × String)}

def accepted : (r : Request) → r.Reply → Prop
  | .write _ _, (done, _) => done = .ok ()
  | .flush _, (done, _) => done = .ok ()
  | .close _, (done, _) => done = .ok ()
  | _, _ => True

def Granted (r : Request) (s : Storage) : Prop :=
  (∃ a t, r.answer s = (.ok a, t) ∧ accepted r a) ∨ Crowded s r

/-- No call of the script fails. -/
def Unhindered {α : Type} : Script α → Storage → Prop
  | .done _, _ => True
  | .fail _, _ => True
  | .ask r next, s => Granted r s ∧ Unhindered (next (r.answer s).1) (r.answer s).2

/-- If no call fails, the script succeeds with a value and a storage of which `Q` holds. No call
fails if those in `K` are not refused, and they are not refused afterwards. -/
def Delivers {α : Type} (K : Set (StorageCall × String)) (sc : Script α) (s : Storage)
    (Q : α → Storage → Prop) : Prop :=
  Reliable K s ∨ Unhindered sc s → Unhindered sc s ∧
    ∃ a t, outcome sc s = (.ok a, t) ∧ (Reliable K s → Reliable K t) ∧ Q a t

section

variable {α β : Type} {s t : Storage} {sc : Script α} {f : α → Script β}

theorem unhindered_bind_iff : Unhindered (sc >>= f) s ↔
    Unhindered sc s ∧ ∀ a t, outcome sc s = (.ok a, t) → Unhindered (f a) t := by
  induction sc generalizing s with
  | done a =>
      constructor
      · rintro h
        refine ⟨trivial, ?_⟩
        rintro b t ⟨⟩
        exact h
      · exact fun h => h.2 a s rfl
  | fail e =>
      constructor
      · refine fun _ => ⟨trivial, ?_⟩
        rintro b t ⟨⟩
      · exact fun _ => trivial
  | ask r next ih =>
      refine (and_congr_right fun _ => ih (r.answer s).1 (s := (r.answer s).2)).trans ?_
      exact and_assoc.symm

theorem unhindered_tryCatch_iff {handle : Error → Script α} :
    Unhindered (tryCatch sc handle) s ↔
      Unhindered sc s ∧ ∀ e t, outcome sc s = (.error e, t) → Unhindered (handle e) t := by
  induction sc generalizing s with
  | done a =>
      constructor
      · refine fun _ => ⟨trivial, ?_⟩
        rintro e t ⟨⟩
      · exact fun _ => trivial
  | fail e =>
      constructor
      · rintro h
        refine ⟨trivial, ?_⟩
        rintro e' t ⟨⟩
        exact h
      · exact fun h => h.2 e s rfl
  | ask r next ih =>
      refine (and_congr_right fun _ => ih (r.answer s).1 (s := (r.answer s).2)).trans ?_
      exact and_assoc.symm

theorem unhindered_attempt_iff : Unhindered sc.attempt s ↔ Unhindered sc s := by
  induction sc generalizing s with
  | done a => rfl
  | fail e => rfl
  | ask r next ih => exact and_congr_right fun _ => ih (r.answer s).1

theorem unhindered_call_iff {r : Request} : Unhindered (Script.call r) s ↔ Granted r s := by
  rw [Script.call, Unhindered]
  cases (r.answer s).1 with
  | ok a => exact and_iff_left trivial
  | error e => exact and_iff_left trivial

theorem outcome_bind {a : α} (h : outcome sc s = (.ok a, t)) :
    outcome (sc >>= f) s = outcome (f a) t := by
  have hbind : Ensures (sc >>= f) s fun _ x u => (x, u) = outcome (f a) t := by
    rw [ensures_bind_iff, Ensures, h]
    rfl
  exact hbind

theorem outcome_tryCatch {a : α} {handle : Error → Script α} (h : outcome sc s = (.ok a, t)) :
    outcome (tryCatch sc handle) s = (.ok a, t) := by
  have hcatch : Ensures (tryCatch sc handle) s fun _ x u => (x, u) = (.ok a, t) := by
    rw [ensures_tryCatch_iff, Ensures, h]
  exact hcatch

theorem outcome_attempt (sc : Script α) (s : Storage) :
    outcome sc.attempt s = (.ok (outcome sc s).1, (outcome sc s).2) := by
  have hattempt : Ensures sc.attempt s fun _ x u =>
      (x, u) = (.ok (outcome sc s).1, (outcome sc s).2) := by
    rw [ensures_attempt_iff]
    rfl
  exact hattempt

end

section

variable {α β : Type} {s t : Storage} {sc : Script α} {Q : α → Storage → Prop}
  {R : β → Storage → Prop}

theorem delivers_pure {a : α} (h : Q a s) : Delivers K (pure a) s Q :=
  fun _ => ⟨trivial, a, s, rfl, id, h⟩

theorem delivers_ofExcept {x : Except Error α} {a : α} (hx : x = .ok a) (h : Q a s) :
    Delivers K (Script.ofExcept x) s Q := by
  rw [hx]
  exact delivers_pure h

theorem Delivers.bind {f : α → Script β} (h : Delivers K sc s Q)
    (hf : ∀ a t, Q a t → Delivers K (f a) t R) : Delivers K (sc >>= f) s R := by
  intro hs
  have hfirst : Reliable K s ∨ Unhindered sc s :=
    hs.imp_right fun hu => (unhindered_bind_iff.mp hu).1
  obtain ⟨hu, a, t, ho, hkept, hq⟩ := h hfirst
  have hsecond : Reliable K t ∨ Unhindered (f a) t :=
    hs.imp hkept fun hu => (unhindered_bind_iff.mp hu).2 a t ho
  obtain ⟨hu', b, u, ho', hkept', hr⟩ := hf a t hq hsecond
  refine ⟨unhindered_bind_iff.mpr ⟨hu, ?_⟩, b, u, (outcome_bind ho).trans ho',
    fun h => hkept' (hkept h), hr⟩
  intro a' t' ho''
  cases ho.symm.trans ho''
  exact hu'

theorem Delivers.tryCatch {handle : Error → Script α} (h : Delivers K sc s Q) :
    Delivers K (tryCatch sc handle) s Q := by
  intro hs
  obtain ⟨hu, a, t, ho, hkept, hq⟩ :=
    h (hs.imp_right fun hu => (unhindered_tryCatch_iff.mp hu).1)
  refine ⟨unhindered_tryCatch_iff.mpr ⟨hu, ?_⟩, a, t, outcome_tryCatch ho, hkept, hq⟩
  intro e t' ho'
  cases ho.symm.trans ho'

theorem Delivers.attempt (h : Delivers K sc s Q) :
    Delivers K sc.attempt s fun x t => ∃ a, x = .ok a ∧ Q a t := by
  intro hs
  obtain ⟨hu, a, t, ho, hkept, hq⟩ := h (hs.imp_right unhindered_attempt_iff.mp)
  refine ⟨unhindered_attempt_iff.mpr hu, .ok a, t, ?_, hkept, a, rfl, hq⟩
  rw [outcome_attempt, ho]

theorem Delivers.and_ensures {Q' : List Event → Except Error α → Storage → Prop}
    (h : Delivers K sc s Q) (he : Ensures sc s Q') :
    Delivers K sc s fun a t => Q a t ∧ ∃ evs, Q' evs (.ok a) t := by
  intro hs
  obtain ⟨hu, a, t, ho, hkept, hq⟩ := h hs
  rw [Ensures, ho] at he
  exact ⟨hu, a, t, ho, hkept, hq, _, he⟩

theorem Delivers.mono {Q' : α → Storage → Prop} (h : Delivers K sc s Q)
    (hq : ∀ a t, Q a t → Q' a t) : Delivers K sc s Q' := by
  intro hs
  obtain ⟨hu, a, t, ho, hkept, h⟩ := h hs
  exact ⟨hu, a, t, ho, hkept, hq a t h⟩

variable {n : Nat} {P : Set Location} {r : Request} {a : r.Reply}
  {C : r.Reply → Storage → Prop}

theorem delivers_call (ha : r.answer s = (.ok a, t)) (haccepted : accepted r a)
    (hc : Changes n P s t) (h : C a t) : Delivers K (Script.call r) s C := by
  intro _
  refine ⟨unhindered_call_iff.mpr (.inl ⟨a, t, ha, haccepted⟩), a, t, ?_,
    (reliable_iff hc).mpr, h⟩
  have hcall : Ensures (Script.call r) s fun _ x u => (x, u) = (.ok a, t) := by
    rw [ensures_call_ok ha]
  exact hcall

theorem delivers_call_bind {f : r.Reply → Script β} (ha : r.answer s = (.ok a, t))
    (haccepted : accepted r a) (hc : Changes n P s t) (h : Delivers K (f a) t R) :
    Delivers K (Script.call r >>= f) s R := by
  have hcall : Delivers K (Script.call r) s fun x u => x = a ∧ u = t :=
    delivers_call ha haccepted hc ⟨rfl, rfl⟩
  apply hcall.bind
  rintro _ _ ⟨rfl, rfl⟩
  exact h

theorem unhindered_call_bind {f : r.Reply → Script β} (ha : r.answer s = (.ok a, t))
    (haccepted : accepted r a) (h : Unhindered (f a) t) : Unhindered (Script.call r >>= f) s := by
  refine ⟨.inl ⟨a, t, ha, haccepted⟩, ?_⟩
  rw [ha]
  exact h

theorem delivers_call_of_not (hgranted : ¬ Granted r s) (hs : ¬ Reliable K s) :
    Delivers K (Script.call r) s C := by
  rintro (h | h)
  · exact absurd h hs
  · exact absurd (unhindered_call_iff.mp h) hgranted

theorem delivers_of_not (hgranted : ¬ Granted r s) (hs : ¬ Reliable K s)
    (f : r.Reply → Script β) : Delivers K (Script.call r >>= f) s R := by
  have hcall : Delivers K (Script.call r) s fun _ _ => False :=
    delivers_call_of_not hgranted hs
  exact hcall.bind fun _ _ h => h.elim

theorem not_granted_of_stops (h : Stops n r s) (hK : asked r ⊆ K) (hcrowded : ¬ Crowded s r) :
    ¬ Granted r s ∧ ¬ Reliable K s := by
  obtain ⟨e, t, ha, -, hname⟩ := h
  refine ⟨?_, fun hs => hcrowded (hname (hs.mono hK))⟩
  rintro (⟨a, u, ha', -⟩ | hcrowded')
  · cases ha.symm.trans ha'
  · exact hcrowded hcrowded'

theorem delivers_of_stops (h : Stops n r s) (hK : asked r ⊆ K) (hcrowded : ¬ Crowded s r)
    (f : r.Reply → Script β) : Delivers K (Script.call r >>= f) s R := by
  obtain ⟨hgranted, hs⟩ := not_granted_of_stops h hK hcrowded
  exact delivers_of_not hgranted hs f

end

section

variable {n : Nat} {s : Storage} {loc : Location} {acc bytes : Bytes} {o : Output} {b : Builder}
  {p : Pending} {name : String}

theorem writingParts_delivers (h : Writes n loc acc o s) (hwilling : Reliable ∅ s → Willing o)
    (parts : List Bytes) :
    Delivers K (writingParts o parts) s fun x _ => x.1 = .ok () ∧ Settled x.2 := by
  induction parts generalizing acc o s with
  | nil =>
      obtain ⟨o', t, ha, hc, hw⟩ := h.flush
      obtain ⟨o'', u, ha', hc', -, hsettled⟩ := hw.close
      rw [writingParts]
      exact delivers_call_bind ha rfl hc (delivers_call ha' rfl hc' ⟨rfl, hsettled⟩)
  | cons b parts ih =>
      obtain ⟨x, o', t, ha, hc, hx⟩ := h.write b
      rw [writingParts]
      rcases hx with ⟨rfl, hw, hkept⟩ | ⟨hne, hnot, -⟩
      · exact delivers_call_bind ha rfl hc
          (ih hw fun hf => hkept (hwilling ((reliable_iff hc).mp hf)))
      · refine delivers_of_not ?_ (fun hs => hnot (hwilling (hs.mono (Set.empty_subset K)))) _
        rintro (⟨a, u, ha', haccepted⟩ | hcrowded)
        · cases ha.symm.trans ha'
          exact hne haccepted
        · exact hcrowded

theorem preparing_delivers {out : List Bytes × Summary} (hfinish : b.finish = .ok out)
    (hK : asked (.createTemporary name) ⊆ K) (hfree : ¬ Crowded s (.createTemporary name)) :
    Delivers K (b.preparing name) s fun _ _ => True := by
  obtain ⟨parts, summary⟩ := out
  rw [Builder.preparing]
  rcases createTemporary_cases (Nat.zero_le _) name with
    hstops | ⟨i, loc, o, t, ha, -, -, hc, hw, hwilling⟩
  · exact delivers_of_stops hstops hK hfree _
  · apply delivers_call_bind ha trivial hc
    simp only [hfinish]
    apply (writingParts_delivers hw (fun hf => hwilling ((reliable_iff hc).mp hf)) parts).bind
    rintro ⟨x, o'⟩ u ⟨rfl, hsettled⟩
    obtain ⟨v, hdrop, hcv⟩ := drop_of_settled 0 u hsettled
    exact delivers_call_bind hdrop trivial hcv (delivers_pure trivial)

theorem removal_delivers (hp : place? s name = some loc) (hf : fileAt s loc ≠ none)
    (hK : (.delete, name) ∈ K) (w : Error → Warning) :
    Delivers K (tryCatch (Script.call (.delete name)) fun e => Script.call (.warn (w e))) s
      fun _ _ => True := by
  apply Delivers.tryCatch
  rcases delete_cases 0 hp hf with ⟨hstops, -⟩ | ⟨t, ha, hc, -⟩
  · obtain ⟨hgranted, hs⟩ := not_granted_of_stops hstops (Set.singleton_subset_iff.mpr hK) id
    exact delivers_call_of_not hgranted hs
  · exact delivers_call ha trivial hc trivial

theorem preparing_unhindered (hs : Faultless s) (hfree : ¬ Crowded s (.createTemporary name)) :
    Unhindered (b.preparing name) s := by
  cases hfinish : b.finish with
  | ok out => exact (preparing_delivers hfinish (Set.subset_univ _) hfree (.inl hs)).1
  | error fault =>
      rw [Builder.preparing]
      rcases createTemporary_cases (Nat.zero_le _) name with
        ⟨e, t, -, -, hcrowded⟩ | ⟨i, loc, o, t, ha, hp, -, hc, hw, -⟩
      · exact absurd (hcrowded (hs.mono (Set.subset_univ _))) hfree
      · obtain ⟨u, hdrop, hcu, hf⟩ := hw.drop
        have hcs := hc.trans hcu
        have hpu : place? u (temporaryName name i) = some loc := by rw [hcs.places, hp]
        have hremoval := removal_delivers hpu (by rw [hf]; exact Option.some_ne_none _)
          (Set.mem_univ _) fun e => .temporaryLeft (temporaryName name i) e
        apply unhindered_call_bind ha trivial
        simp only [hfinish]
        apply unhindered_call_bind hdrop trivial
        rw [removingTemporary, unhindered_bind_iff]
        exact ⟨(hremoval (.inl ((reliable_iff hcs).mpr hs))).1, fun _ _ _ => trivial⟩

theorem pending_delivers (h : Complete p bytes loc s) (hne : place? s p.name ≠ some loc)
    (hK : (.rename, p.name) ∈ K) : Delivers K p.publishing s fun _ _ => True := by
  rw [Pending.publishing]
  apply Delivers.tryCatch
  rcases rename_cases 0 h.place h.bytes hne with hstops | ⟨t, target, ha, -, hc, -⟩
  · exact delivers_of_stops hstops (Set.singleton_subset_iff.mpr hK) id _
  · exact delivers_call_bind ha trivial hc (delivers_pure trivial)

end

section

variable {n : Nat} {P : Set Location} {c : AnalyzerConfig} {ds : List Document} {f g : Field}
  {s t : Storage} {name : String} {ps : List (Field × Pending)}

theorem building_delivers {file : Bytes} (hfile : indexFile c ds f = some file)
    (hK : {x | x.1 = .create} ⊆ K) (hfree : ¬ Crowded s (.createTemporary f.fileName)) :
    Delivers K (building c ds f) s fun _ _ => True := by
  obtain ⟨b, ⟨hadded, summary, hfinish⟩, -⟩ := built_of_indexFile hfile
  have hadd : Delivers K (Script.ofExcept
      (((Builder.ofConfig c).addAll (sources f ds)).mapError .index)) s fun a u => a = b ∧ u = s :=
    delivers_ofExcept (by rw [hadded]; rfl) ⟨rfl, rfl⟩
  rw [building]
  apply hadd.bind
  rintro _ _ ⟨rfl, rfl⟩
  exact preparing_delivers hfinish hK hfree

theorem isPresent_of_changes (h : Changes n P s t) (hname : Plain name)
    (hP : ∀ loc, place? s name = some loc → loc ∉ P) : t.isPresent name = s.isPresent name := by
  rw [Bool.eq_iff_iff, isPresent_iff hname, isPresent_iff hname]
  refine exists_congr fun loc => ?_
  rw [h.places]
  refine and_congr_right fun hp => ?_
  rw [h.files loc (hP loc hp), h.directories]

theorem crowded_iff (h : Changes n (spare s f.fileName) s t) (hne : f ≠ g) :
    Crowded t (.createTemporary g.fileName) ↔ Crowded s (.createTemporary g.fileName) := by
  refine forall_congr' fun i => imp_congr_right fun _ => ?_
  rw [isPresent_of_changes h (plain_temporaryName (plain_fileName g) i)]
  rintro loc hg ⟨-, j, hf⟩
  refine place?_ne (plain_temporaryName (plain_fileName f) j)
    (plain_temporaryName (plain_fileName g) i) ?_ hf hg
  exact fun heq => hne (field_of_temporaryName heq)

theorem buildingAll_delivers {fs : List Field} (hnodup : fs.Nodup)
    (hfile : ∀ f ∈ fs, ∃ file, indexFile c ds f = some file) (hK : {x | x.1 = .create} ⊆ K)
    (hfree : ∀ f ∈ fs, ¬ Crowded s (.createTemporary f.fileName)) :
    Delivers K (buildingAll c ds fs) s fun outcomes _ => ∀ x ∈ outcomes, ∃ p, x.2 = .ok p := by
  induction fs generalizing s with
  | nil => exact delivers_pure (by simp)
  | cons f fs ih =>
      rw [List.nodup_cons] at hnodup
      rw [List.forall_mem_cons] at hfile hfree
      obtain ⟨⟨file, hf⟩, hrest⟩ := hfile
      have hbuild := (building_delivers hf hK hfree.1).and_ensures
        (building_spec (Nat.zero_le (fileCount s)) c ds f)
      rw [buildingAll]
      apply hbuild.attempt.bind
      rintro _ t ⟨p, rfl, -, evs, hquiet, -⟩
      have hfree' : ∀ g ∈ fs, ¬ Crowded t (.createTemporary g.fileName) := by
        intro g hg
        have hne : f ≠ g := fun heq => hnodup.1 (heq ▸ hg)
        rw [crowded_iff hquiet.changes hne]
        exact hfree.2 g hg
      apply (ih hnodup.2 hrest hfree').bind
      intro outcomes u hall
      exact delivers_pure (List.forall_mem_cons.mpr ⟨⟨p, rfl⟩, hall⟩)

theorem publishing_first_delivers {p : Pending} (hw : Awaiting c ds ((g, p) :: ps) s)
    (hnodup : (((g, p) :: ps).map (·.1)).Nodup) (hK : (.rename, g.fileName) ∈ K)
    (handle : Error → Script Summary) : Delivers K (tryCatch p.publishing handle) s fun _ t =>
      Awaiting c ds ps t ∧ ∃ P, Changes 0 P s t := by
  obtain ⟨⟨hname, loc, b, -, hcomplete⟩, hps⟩ := List.forall_mem_cons.mp hw
  rw [List.map_cons, List.nodup_cons] at hnodup
  have hloc := not_mem_tempsOf hname hcomplete hps hnodup.1
  have hlive : place? s p.name ≠ some loc := hname ▸ place_ne_live hname hcomplete g
  have hpublish := (pending_delivers hcomplete hlive (hname ▸ hK)).and_ensures
    (publishing_spec 0 hcomplete hlive)
  apply hpublish.tryCatch.mono
  rintro summary t ⟨-, evs, ⟨target, -, htarget, hquiet, -⟩ | ⟨e, ⟨⟩, -⟩⟩
  rw [hname] at htarget
  exact ⟨awaiting_of_renamed hps hloc htarget hquiet.changes, _, hquiet.changes⟩

theorem publishingAll_delivers (hw : Awaiting c ds ps s) (hnodup : (ps.map (·.1)).Nodup)
    (hK : ∀ f ∈ ps.map (·.1), (.rename, f.fileName) ∈ K) :
    Delivers K (publishingAll ps) s fun _ _ => True := by
  induction ps generalizing s with
  | nil => exact delivers_pure trivial
  | cons x ps ih =>
      obtain ⟨g, p⟩ := x
      rw [List.map_cons, List.forall_mem_cons] at hK
      rw [publishingAll]
      apply (publishing_first_delivers hw hnodup hK.1 _).bind
      rintro summary t ⟨hrest, -⟩
      apply (ih hrest hnodup.tail hK.2).bind
      intro out u _
      exact delivers_pure trivial

/-- If nothing but the renaming that publishes one of the indices is refused, that renaming is
what fails. -/
theorem publishingAll_refused (hw : Awaiting c ds ps s) (hnodup : (ps.map (·.1)).Nodup)
    (hf : f ∈ ps.map (·.1)) (hs : Reliable {x | x ≠ (.rename, f.fileName)} s)
    (hr : ∀ clock, s.plan.refuses clock .rename f.fileName = true) :
    ∃ ev ∈ (publishingAll ps).events s, ∃ old, ev.request = .rename old f.fileName ∧
      ev.failure = some (.storage (.refused .rename f.fileName)) := by
  induction ps generalizing s with
  | nil => cases hf
  | cons x ps ih =>
      obtain ⟨g, p⟩ := x
      rw [publishingAll]
      by_cases hg : g = f
      · subst hg
        have hname : p.name = g.fileName := (hw (g, p) List.mem_cons_self).1
        have hfail := rename_refused (hr s.clock) p.temporary
        rw [← hname] at hfail ⊢
        refine ⟨_, mem_events_bind (mem_events_tryCatch (mem_events_tryCatch
          (mem_events_bind (mem_events_call (.rename p.temporary p.name) s) _) _) _) _,
          p.temporary, rfl, ?_⟩
        rw [eventOf, hfail]
      · have hother : (.rename, g.fileName) ∈
            {x : StorageCall × String | x ≠ (.rename, f.fileName)} :=
          fun heq => hg (fileName_injective (Prod.mk.inj heq).2)
        obtain ⟨-, summary, t, ho, hkept, hrest, P, hchanges⟩ :=
          publishing_first_delivers hw hnodup hother _ (.inl hs)
        have hmem : f ∈ ps.map (·.1) := (List.mem_cons.mp hf).resolve_left fun heq => hg heq.symm
        obtain ⟨ev, hev, hfailed⟩ :=
          ih hrest hnodup.tail hmem (hkept hs) (hchanges.plan.symm ▸ hr)
        exact ⟨ev, mem_events_bind_of_ok ho (mem_events_bind hev _), hfailed⟩

end

end Concordance.Proofs.Deliveries
