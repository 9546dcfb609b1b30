import Mathlib.Order.Defs.Unbundled
import Concordance.Error

namespace Concordance.Proofs.Outcomes

variable {ε σ α β : Type}

theorem ok_bind (a : α) (f : α → Except ε β) : (Except.ok a >>= f) = f a := rfl

theorem error_bind (e : ε) (f : α → Except ε β) : (Except.error e >>= f) = .error e := rfl

theorem bind_eq_ok {x : Except ε α} {f : α → Except ε β} {b : β} (h : (x >>= f) = .ok b) :
    ∃ a, x = .ok a ∧ f a = .ok b := by
  cases x with
  | ok a => exact ⟨a, rfl, h⟩
  | error e => cases h

theorem mapError_ok (f : ε → σ) (a : α) : (Except.ok a).mapError f = .ok a := rfl

theorem mapError_error (f : ε → σ) (e : ε) :
    (Except.error e : Except ε α).mapError f = .error (f e) := rfl

def Gives (m : EStateM ε σ α) (s : σ) (a : α) (P : σ → Prop) : Prop := ∃ t, m s = .ok a t ∧ P t

theorem Gives.mono {m : EStateM ε σ α} {s : σ} {a : α} {P Q : σ → Prop} (h : Gives m s a P)
    (hpq : ∀ t, P t → Q t) : Gives m s a Q := by
  obtain ⟨t, ht, hp⟩ := h
  exact ⟨t, ht, hpq t hp⟩

theorem bind_of_ok {m : EStateM ε σ α} {s t : σ} {a : α} (h : m s = .ok a t)
    (f : α → EStateM ε σ β) : (m >>= f) s = f a t := by
  change EStateM.bind m f s = _
  rw [EStateM.bind, h]

theorem bind_of_error {m : EStateM ε σ α} {s t : σ} {e : ε} (h : m s = .error e t)
    (f : α → EStateM ε σ β) : (m >>= f) s = .error e t := by
  change EStateM.bind m f s = _
  rw [EStateM.bind, h]

theorem bind_congr_at {m m' : EStateM ε σ α} {s : σ} (h : m s = m' s) (f : α → EStateM ε σ β) :
    (m >>= f) s = (m' >>= f) s := by
  change EStateM.bind m f s = EStateM.bind m' f s
  rw [EStateM.bind, EStateM.bind, h]

theorem get_bind (f : σ → EStateM ε σ α) (s : σ) : (get >>= f : EStateM ε σ α) s = f s s := rfl

theorem Gives.bind {m : EStateM ε σ α} {f : α → EStateM ε σ β} {s : σ} {a : α} {b : β}
    {P Q : σ → Prop} (h : Gives m s a P) (hf : ∀ t, P t → Gives (f a) t b Q) :
    Gives (m >>= f) s b Q := by
  obtain ⟨t, ht, hp⟩ := h
  obtain ⟨u, hu, hq⟩ := hf t hp
  exact ⟨u, (bind_of_ok ht f).trans hu, hq⟩

theorem gives_bind_iff {m : EStateM ε σ α} {f : α → EStateM ε σ β} {s t : σ} {a : α} {b : β}
    {P : σ → Prop} (h : m s = .ok a t) : Gives (m >>= f) s b P ↔ Gives (f a) t b P := by
  rw [Gives, Gives, bind_of_ok h]

@[simp] theorem gives_get_bind_iff {f : σ → EStateM ε σ β} {s : σ} {b : β} {P : σ → Prop} :
    Gives (get >>= f) s b P ↔ Gives (f s) s b P := Iff.rfl

@[simp] theorem gives_modify_bind_iff {g : σ → σ} {f : PUnit → EStateM ε σ β} {s : σ} {b : β}
    {P : σ → Prop} : Gives (modify g >>= f) s b P ↔ Gives (f ⟨⟩) (g s) b P := Iff.rfl

theorem Gives.map {m : EStateM ε σ α} {s : σ} {a : α} {P : σ → Prop} (h : Gives m s a P)
    (f : α → β) : Gives (f <$> m) s (f a) P := by
  obtain ⟨t, ht, hp⟩ := h
  refine ⟨t, ?_, hp⟩
  change EStateM.map f m s = _
  rw [EStateM.map, ht]

def stateOf : EStateM.Result ε σ α → σ
  | .ok _ s => s
  | .error _ s => s

theorem stateOf_bind_pure (m : EStateM ε σ α) (f : α → β) (s : σ) :
    stateOf ((m >>= fun a => pure (f a)) s) = stateOf (m s) := by
  cases h : m s with
  | ok a t =>
      rw [bind_of_ok h]
      rfl
  | error e t =>
      rw [bind_of_error h]
      rfl

theorem Gives.leaves {m : EStateM ε σ α} {s : σ} {a : α} {P : σ → Prop} (h : Gives m s a P) :
    P (stateOf (m s)) := by
  obtain ⟨t, ht, hp⟩ := h
  rwa [ht]

def Keeps (R : σ → σ → Prop) (m : EStateM ε σ α) : Prop := ∀ s, R s (stateOf (m s))

section

variable {R : σ → σ → Prop} [IsPreorder σ R] {m : EStateM ε σ α}

theorem keeps_pure (a : α) : Keeps R (pure a : EStateM ε σ α) := fun s => refl_of R s

theorem keeps_throw (e : ε) : Keeps R (throw e : EStateM ε σ α) := fun s => refl_of R s

theorem keeps_get : Keeps R (get : EStateM ε σ σ) := fun s => refl_of R s

theorem keeps_ofExcept (x : Except ε α) : Keeps R (ofExcept x : EStateM ε σ α) := by
  cases x with
  | ok a => exact keeps_pure a
  | error e => exact keeps_throw e

theorem Keeps.bind {f : α → EStateM ε σ β} (h : Keeps R m) (hf : ∀ a, Keeps R (f a)) :
    Keeps R (m >>= f) := by
  intro s
  have hs := h s
  cases hm : m s with
  | ok a t =>
      rw [hm] at hs
      rw [bind_of_ok hm]
      exact trans_of R hs (hf a t)
  | error e t =>
      rw [hm] at hs
      rw [bind_of_error hm]
      exact hs

theorem Keeps.tryCatch {handle : ε → EStateM ε σ α} (h : Keeps R m)
    (hhandle : ∀ e, Keeps R (handle e)) : Keeps R (tryCatch m handle) := by
  intro s
  have hs := h s
  change R s (stateOf (EStateM.tryCatch m handle s))
  delta EStateM.tryCatch
  cases hm : m s with
  | ok a t =>
      rw [hm] at hs
      exact hs
  | error e t =>
      rw [hm] at hs
      exact trans_of R hs (hhandle e t)

end

end Concordance.Proofs.Outcomes
