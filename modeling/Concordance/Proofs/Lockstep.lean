import Concordance.Proofs.Guards

namespace Concordance.Proofs.Lockstep

open Outcomes Guards

variable {σ τ ρ υ α β : Type}

def outcomeOf {ε : Type} : EStateM.Result ε σ α → Except ε α
  | .ok a _ => .ok a
  | .error e _ => .error e

def within {ε : Type} (put : ρ → σ) : EStateM.Result ε ρ α → EStateM.Result ε σ α
  | .ok a p => .ok a (put p)
  | .error e p => .error e (put p)

section

variable {s : σ} {g : Guarded σ α}

theorem lifted_of_bind {f : α → Guarded σ β} {x : EStateM.Result Error σ β}
    (hx : (g >>= f) s = lifted x) : ∃ y, g s = lifted y ∧
      match y with
      | .ok a t => f a t = lifted x
      | .error e t => x = .error e t := by
  rw [bind_apply] at hx
  cases hg : g s with
  | ok a t =>
      rw [hg] at hx
      exact ⟨.ok a t, rfl, hx⟩
  | error stop t =>
      rw [hg] at hx
      cases x with
      | ok b u => cases hx
      | error e u =>
          cases hx
          exact ⟨.error e t, rfl, rfl⟩

theorem lifted_of_check {c : Prop} [Decidable c] {stop : Stop} {x : EStateM.Result Error σ α}
    (hstop : ∀ e, stop ≠ .failed e) (hx : (check c stop >>= fun _ => g) s = lifted x) :
    c ∧ g s = lifted x := by
  rw [bind_apply, check] at hx
  by_cases hc : c
  · rw [if_pos hc] at hx
    exact ⟨hc, hx⟩
  · rw [if_neg hc] at hx
    cases x with
    | ok a t => cases hx
    | error e t =>
        cases hx
        exact absurd rfl (hstop e)

theorem lifted_of_attempt {x : EStateM.Result Error σ (Except Error α)}
    (hx : attemptGuarded g s = lifted x) :
    ∃ y, g s = lifted y ∧ x = .ok (outcomeOf y) (stateOf y) := by
  rw [attemptGuarded] at hx
  cases hg : g s with
  | ok a t =>
      rw [hg] at hx
      exact ⟨.ok a t, rfl, lifted_injective hx.symm⟩
  | error stop t =>
      rw [hg] at hx
      cases stop with
      | failed e => exact ⟨.error e t, rfl, lifted_injective hx.symm⟩
      | tooWide => cases x <;> cases hx
      | outside => cases x <;> cases hx

theorem lifted_of_focus {part : σ → ρ} {put : σ → ρ → σ} {g : Guarded ρ α}
    {x : EStateM.Result Error σ α} (hx : focus part put g s = lifted x) :
    ∃ y, g (part s) = lifted y ∧ x = within (put s) y := by
  rw [focus] at hx
  cases hg : g (part s) with
  | ok a p =>
      rw [hg] at hx
      exact ⟨.ok a p, rfl, lifted_injective hx.symm⟩
  | error stop p =>
      rw [hg] at hx
      cases x with
      | ok b u => cases hx
      | error e u =>
          cases hx
          exact ⟨.error e p, rfl, rfl⟩

end

/-- The same value or the same error, and states that are related. -/
def Alike (R : σ → τ → Prop) : EStateM.Result Error σ α → EStateM.Result Error τ α → Prop
  | .ok a s, .ok b t => a = b ∧ R s t
  | .error e s, .error f t => e = f ∧ R s t
  | _, _ => False

theorem Alike.cases {R : σ → τ → Prop} {x : EStateM.Result Error σ α}
    {y : EStateM.Result Error τ α} (h : Alike R x y) :
    (∃ a s t, x = .ok a s ∧ y = .ok a t ∧ R s t) ∨
      ∃ e s t, x = .error e s ∧ y = .error e t ∧ R s t := by
  cases x with
  | ok a s =>
      cases y with
      | ok b t =>
          obtain ⟨rfl, hr⟩ := h
          exact .inl ⟨a, s, t, rfl, rfl, hr⟩
      | error f t => exact h.elim
  | error e s =>
      cases y with
      | ok b t => exact h.elim
      | error f t =>
          obtain ⟨rfl, hr⟩ := h
          exact .inr ⟨e, s, t, rfl, rfl, hr⟩

theorem Alike.outcome_eq {R : σ → τ → Prop} {x : EStateM.Result Error σ α}
    {y : EStateM.Result Error τ α} (h : Alike R x y) :
    outcomeOf x = outcomeOf y ∧ R (stateOf x) (stateOf y) := by
  obtain ⟨a, s, t, rfl, rfl, hr⟩ | ⟨e, s, t, rfl, rfl, hr⟩ := h.cases
  · exact ⟨rfl, hr⟩
  · exact ⟨rfl, hr⟩

/-- Unless a guard stops one of them, the actions end with the same value or the same error and
again in related states. -/
def InStep (R : σ → τ → Prop) (s : σ) (t : τ) (g : Guarded σ α) (h : Guarded τ α) : Prop :=
  ∀ x y, g s = lifted x → h t = lifted y → Alike R x y

variable {R : σ → τ → Prop} {s : σ} {t : τ} {g : Guarded σ α} {h : Guarded τ α}

theorem InStep.alike (hstep : InStep R s t g h) {m : EStateM Error σ α} {n : EStateM Error τ α}
    (hg : g s = bare m s) (hh : h t = bare n t) : Alike R (m s) (n t) :=
  hstep (m s) (n t) hg hh

theorem inStep_pure (hr : R s t) (a : α) : InStep R s t (pure a) (pure a) := by
  intro x y hx hy
  rw [← lifted_injective (r := .ok a s) hx, ← lifted_injective (r := .ok a t) hy]
  exact ⟨rfl, hr⟩

theorem inStep_fail (hr : R s t) (e : Error) : InStep R s t (fail e : Guarded σ α) (fail e) := by
  intro x y hx hy
  rw [← lifted_injective (r := .error e s) hx, ← lifted_injective (r := .error e t) hy]
  exact ⟨rfl, hr⟩

theorem inStep_bare {m : EStateM Error σ α} {n : EStateM Error τ α} {a : α} {P : σ → Prop}
    {Q : τ → Prop} (hm : Gives m s a P) (hn : Gives n t a Q) (hr : ∀ s t, P s → Q t → R s t) :
    InStep R s t (bare m) (bare n) := by
  obtain ⟨s', hs, hp⟩ := hm
  obtain ⟨t', ht, hq⟩ := hn
  intro x y hx hy
  rw [← lifted_injective hx, ← lifted_injective hy, hs, ht]
  exact ⟨rfl, hr s' t' hp hq⟩

theorem InStep.bind (hstep : InStep R s t g h) {f : α → Guarded σ β} {k : α → Guarded τ β}
    (hnext : ∀ a s t, R s t → InStep R s t (f a) (k a)) : InStep R s t (g >>= f) (h >>= k) := by
  intro x y hx hy
  obtain ⟨x', hg, hx⟩ := lifted_of_bind hx
  obtain ⟨y', hh, hy⟩ := lifted_of_bind hy
  obtain ⟨a, s', t', rfl, rfl, hr⟩ | ⟨e, s', t', rfl, rfl, hr⟩ := (hstep x' y' hg hh).cases
  · exact hnext a s' t' hr x y hx hy
  · obtain rfl : x = .error e s' := hx
    obtain rfl : y = .error e t' := hy
    exact ⟨rfl, hr⟩

theorem inStep_get_bind {f : σ → Guarded σ α} {k : τ → Guarded τ α}
    (hstep : InStep R s t (f s) (k t)) : InStep R s t (get >>= f) (get >>= k) := hstep

theorem inStep_modify_bind {u : σ → σ} {v : τ → τ} {f : PUnit → Guarded σ α}
    {k : PUnit → Guarded τ α} (hstep : InStep R (u s) (v t) (f ⟨⟩) (k ⟨⟩)) :
    InStep R s t (modify u >>= f) (modify v >>= k) := hstep

theorem inStep_modify {u : σ → σ} {v : τ → τ} (hr : R (u s) (v t)) :
    InStep R s t (modify u) (modify v) :=
  inStep_modify_bind (f := pure) (k := pure) (inStep_pure hr PUnit.unit)

theorem inStep_check_bind {c d : Prop} [Decidable c] [Decidable d] {stop stop' : Stop}
    (hstop : ∀ e, stop ≠ .failed e) (hstop' : ∀ e, stop' ≠ .failed e)
    (hstep : c → d → InStep R s t g h) :
    InStep R s t (check c stop >>= fun _ => g) (check d stop' >>= fun _ => h) := by
  intro x y hx hy
  obtain ⟨hc, hx⟩ := lifted_of_check hstop hx
  obtain ⟨hd, hy⟩ := lifted_of_check hstop' hy
  exact hstep hc hd x y hx hy

theorem inStep_fits32_bind {m n : Nat} (hstep : InStep R s t g h) :
    InStep R s t (fits32 m >>= fun _ => g) (fits32 n >>= fun _ => h) :=
  inStep_check_bind (by rintro e ⟨⟩) (by rintro e ⟨⟩) fun _ _ => hstep

theorem inStep_fits64_bind {m n : Nat}
    (hstep : m < UInt64.size → n < UInt64.size → InStep R s t g h) :
    InStep R s t (fits64 m >>= fun _ => g) (fits64 n >>= fun _ => h) :=
  inStep_check_bind (by rintro e ⟨⟩) (by rintro e ⟨⟩) hstep

theorem inStep_inside_bind {first stop pos n first' stop' pos' n' : Nat}
    (hstep : first ≤ pos ∧ pos + n ≤ stop → first' ≤ pos' ∧ pos' + n' ≤ stop' →
      InStep R s t g h) :
    InStep R s t (inside first stop pos n >>= fun _ => g)
      (inside first' stop' pos' n' >>= fun _ => h) :=
  inStep_check_bind (by rintro e ⟨⟩) (by rintro e ⟨⟩) hstep

theorem InStep.ite {c : Prop} [Decidable c] {g' : Guarded σ α} {h' : Guarded τ α}
    (hthen : InStep R s t g h) (helse : InStep R s t g' h') :
    InStep R s t (if c then g else g') (if c then h else h') := by
  split
  · exact hthen
  · exact helse

theorem InStep.attempt (hstep : InStep R s t g h) :
    InStep R s t (attemptGuarded g) (attemptGuarded h) := by
  intro x y hx hy
  obtain ⟨x', hg, rfl⟩ := lifted_of_attempt hx
  obtain ⟨y', hh, rfl⟩ := lifted_of_attempt hy
  exact (hstep x' y' hg hh).outcome_eq

theorem InStep.focus {part : σ → ρ} {part' : τ → υ} {put : σ → ρ → σ} {put' : τ → υ → τ}
    {Q : ρ → υ → Prop} {g : Guarded ρ α} {h : Guarded υ α}
    (hstep : InStep Q (part s) (part' t) g h) (hput : ∀ a b, Q a b → R (put s a) (put' t b)) :
    InStep R s t (focus part put g) (focus part' put' h) := by
  intro x y hx hy
  obtain ⟨x', hg, rfl⟩ := lifted_of_focus hx
  obtain ⟨y', hh, rfl⟩ := lifted_of_focus hy
  obtain ⟨a, p, q, rfl, rfl, hr⟩ | ⟨e, p, q, rfl, rfl, hr⟩ := (hstep x' y' hg hh).cases
  · exact ⟨rfl, hput p q hr⟩
  · exact ⟨rfl, hput p q hr⟩

end Concordance.Proofs.Lockstep
