import Concordance.Proofs.Outcomes
import Concordance.Storage.Script

namespace Concordance.Proofs.Scripts

variable {α β : Type}

def eventOf (r : Request) (s : Storage) : Event :=
  ⟨r, match (r.answer s).1 with | .ok _ => none | .error e => some e, (r.answer s).2⟩

def outcome (sc : Script α) (s : Storage) : Except Error α × Storage :=
  match sc.run s with
  | .ok a t => (.ok a, t)
  | .error e t => (.error e, t)

/-- What is said of the calls, the result and the last storage of a script holds. -/
def Ensures (sc : Script α) (s : Storage)
    (Q : List Event → Except Error α → Storage → Prop) : Prop :=
  Q (sc.events s) (outcome sc s).1 (outcome sc s).2

variable {s : Storage} {Q : List Event → Except Error α → Storage → Prop}
  {R : List Event → Except Error β → Storage → Prop}

theorem Ensures.imp {sc : Script α} {Q' : List Event → Except Error α → Storage → Prop}
    (h : Ensures sc s Q) (hq : ∀ evs x t, Q evs x t → Q' evs x t) : Ensures sc s Q' :=
  hq _ _ _ h

theorem Ensures.self {sc : Script α} (h : Ensures sc s Q) : Ensures sc s fun evs x t =>
    Q evs x t ∧ outcome sc s = (x, t) :=
  ⟨h, rfl⟩

theorem ensures_pure_iff (a : α) : Ensures (pure a) s Q ↔ Q [] (.ok a) s := Iff.rfl

theorem ensures_throw_iff (e : Error) : Ensures (throw e : Script α) s Q ↔ Q [] (.error e) s :=
  Iff.rfl

theorem ensures_ask_iff (r : Request) (next : Except Error r.Reply → Script α) :
    Ensures (.ask r next) s Q ↔
      Ensures (next (r.answer s).1) (r.answer s).2 fun evs => Q (eventOf r s :: evs) :=
  Iff.rfl

theorem ensures_call_iff (r : Request) {Q : List Event → Except Error r.Reply → Storage → Prop} :
    Ensures (Script.call r) s Q ↔ Q [eventOf r s] (r.answer s).1 (r.answer s).2 := by
  rw [Script.call, ensures_ask_iff]
  cases (r.answer s).1 with
  | ok a => rfl
  | error e => rfl

theorem ensures_bind_iff (sc : Script α) (f : α → Script β) : Ensures (sc >>= f) s R ↔
    Ensures sc s fun evs x t => match x with
      | .ok a => Ensures (f a) t fun evs' => R (evs ++ evs')
      | .error e => R evs (.error e) t := by
  induction sc generalizing s R with
  | done a => rfl
  | fail e => rfl
  | ask r next ih =>
      exact ih (r.answer s).1 (s := (r.answer s).2) (R := fun evs => R (eventOf r s :: evs))

theorem Ensures.bind {sc : Script α} {f : α → Script β} (h : Ensures sc s Q)
    (hok : ∀ evs a t, Q evs (.ok a) t → Ensures (f a) t fun evs' => R (evs ++ evs'))
    (herror : ∀ evs e t, Q evs (.error e) t → R evs (.error e) t) : Ensures (sc >>= f) s R := by
  rw [ensures_bind_iff]
  apply h.imp
  intro evs x t hq
  cases x with
  | ok a => exact hok evs a t hq
  | error e => exact herror evs e t hq

theorem ensures_call_ok {r : Request} {a : r.Reply} {t : Storage}
    {Q : List Event → Except Error r.Reply → Storage → Prop} (h : r.answer s = (.ok a, t)) :
    Ensures (Script.call r) s Q ↔ Q [⟨r, none, t⟩] (.ok a) t := by
  rw [ensures_call_iff, eventOf, h]

theorem ensures_call_error {r : Request} {e : Error} {t : Storage}
    {Q : List Event → Except Error r.Reply → Storage → Prop} (h : r.answer s = (.error e, t)) :
    Ensures (Script.call r) s Q ↔ Q [⟨r, some e, t⟩] (.error e) t := by
  rw [ensures_call_iff, eventOf, h]

theorem ensures_call_bind {r : Request} {a : r.Reply} {t : Storage} (h : r.answer s = (.ok a, t))
    (f : r.Reply → Script β) :
    Ensures (Script.call r >>= f) s R ↔ Ensures (f a) t fun evs => R (⟨r, none, t⟩ :: evs) := by
  rw [ensures_bind_iff, ensures_call_ok h]
  rfl

theorem ensures_call_bind_error {r : Request} {e : Error} {t : Storage}
    (h : r.answer s = (.error e, t)) (f : r.Reply → Script β) :
    Ensures (Script.call r >>= f) s R ↔ R [⟨r, some e, t⟩] (.error e) t := by
  rw [ensures_bind_iff, ensures_call_error h]

theorem ensures_tryCatch_iff (sc : Script α) (handle : Error → Script α) :
    Ensures (tryCatch sc handle) s Q ↔ Ensures sc s fun evs x t => match x with
      | .ok a => Q evs (.ok a) t
      | .error e => Ensures (handle e) t fun evs' => Q (evs ++ evs') := by
  induction sc generalizing s Q with
  | done a => rfl
  | fail e => rfl
  | ask r next ih =>
      exact ih (r.answer s).1 (s := (r.answer s).2) (Q := fun evs => Q (eventOf r s :: evs))

theorem ensures_attempt_iff (sc : Script α)
    {Q : List Event → Except Error (Except Error α) → Storage → Prop} :
    Ensures sc.attempt s Q ↔ Ensures sc s fun evs x t => Q evs (.ok x) t := by
  induction sc generalizing s Q with
  | done a => rfl
  | fail e => rfl
  | ask r next ih =>
      exact ih (r.answer s).1 (s := (r.answer s).2) (Q := fun evs => Q (eventOf r s :: evs))

theorem ensures_ofExcept_iff (x : Except Error α) :
    Ensures (Script.ofExcept x) s Q ↔ Q [] x s := by
  cases x with
  | ok a => rfl
  | error e => rfl

section

variable {ev : Event} {sc : Script α} {f : α → Script β} {a : α} {t : Storage}

theorem mem_events_call (r : Request) (s : Storage) : eventOf r s ∈ (Script.call r).events s :=
  List.mem_cons_self

theorem mem_events_bind (h : ev ∈ sc.events s) (f : α → Script β) : ev ∈ (sc >>= f).events s := by
  induction sc generalizing s with
  | done a => cases h
  | fail e => cases h
  | ask r next ih =>
      rcases List.mem_cons.mp h with rfl | h
      · exact List.mem_cons_self
      · exact List.mem_cons_of_mem _ (ih _ h)

theorem mem_events_tryCatch (h : ev ∈ sc.events s) (handle : Error → Script α) :
    ev ∈ (tryCatch sc handle).events s := by
  induction sc generalizing s with
  | done a => cases h
  | fail e => cases h
  | ask r next ih =>
      rcases List.mem_cons.mp h with rfl | h
      · exact List.mem_cons_self
      · exact List.mem_cons_of_mem _ (ih _ h)

theorem mem_events_bind_of_ok (ho : outcome sc s = (.ok a, t)) (h : ev ∈ (f a).events t) :
    ev ∈ (sc >>= f).events s := by
  have hbind : Ensures (sc >>= f) s fun evs _ _ => ev ∈ evs := by
    rw [ensures_bind_iff, Ensures, ho]
    exact List.mem_append_right _ h
  exact hbind

end

theorem outcome_of_run {sc : Script α} {a : α} {t : Storage} (h : sc.run s = .ok a t) :
    outcome sc s = (.ok a, t) := by
  rw [outcome, h]

theorem run_of_outcome {sc : Script α} {a : α} {t : Storage} (h : outcome sc s = (.ok a, t)) :
    sc.run s = .ok a t := by
  rw [outcome] at h
  cases hr : sc.run s with
  | ok b u =>
      rw [hr] at h
      cases h
      rfl
  | error e u =>
      rw [hr] at h
      cases h

theorem outcome_mem_moments (sc : Script α) (s : Storage) : (outcome sc s).2 ∈ sc.moments s := by
  induction sc generalizing s with
  | done a => exact List.mem_cons_self
  | fail e => exact List.mem_cons_self
  | ask r next ih => exact List.mem_cons_of_mem s (ih (r.answer s).1 (r.answer s).2)

/-- What comes of a script apart, the storage that it leaves is the one that running it leaves. -/
theorem Ensures.leaves {sc : Script α} (h : Ensures sc s Q) :
    ∃ x, Q (sc.events s) x (Outcomes.stateOf (sc.run s)) := by
  rw [Ensures, outcome] at h
  cases hr : sc.run s with
  | ok a t => exact ⟨.ok a, by rwa [hr] at h⟩
  | error e t => exact ⟨.error e, by rwa [hr] at h⟩

theorem Ensures.run_ok {sc : Script α} {a : α} {t : Storage} (h : Ensures sc s Q)
    (hr : sc.run s = .ok a t) : Q (sc.events s) (.ok a) t := by
  rw [Ensures, outcome, hr] at h
  exact h

theorem Ensures.run_error {sc : Script α} {e : Error} {t : Storage} (h : Ensures sc s Q)
    (hr : sc.run s = .error e t) : Q (sc.events s) (.error e) t := by
  rw [Ensures, outcome, hr] at h
  exact h

end Concordance.Proofs.Scripts
