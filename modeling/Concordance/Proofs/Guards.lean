import Concordance.Proofs.Outcomes

namespace Concordance.Proofs.Guards

open Outcomes

variable {σ τ ε α β : Type}

/-- What ends a guarded action: one of its guards, or the action itself. -/
inductive Stop
  | tooWide
  | outside
  | failed (e : Error)

/-- Actions that stop at a number that its width does not hold and at a read of bytes that are not
the reader's. -/
abbrev Guarded (σ α : Type) := EStateM Stop σ α

def lifted : EStateM.Result Error σ α → EStateM.Result Stop σ α
  | .ok a t => .ok a t
  | .error e t => .error (.failed e) t

def bare (m : EStateM Error σ α) : Guarded σ α := fun s => lifted (m s)

def fail (e : Error) : Guarded σ α := fun s => .error (.failed e) s

def check (c : Prop) [Decidable c] (stop : Stop) : Guarded σ Unit := fun s =>
  if c then .ok () s else .error stop s

def fits32 (n : Nat) : Guarded σ Unit := check (n < UInt32.size) .tooWide

def fits64 (n : Nat) : Guarded σ Unit := check (n < UInt64.size) .tooWide

def inside (first stop pos n : Nat) : Guarded σ Unit :=
  check (first ≤ pos ∧ pos + n ≤ stop) .outside

def attempt (m : EStateM Error σ α) : EStateM Error σ (Except Error α) := fun s =>
  match m s with
  | .ok a t => .ok (.ok a) t
  | .error e t => .ok (.error e) t

def attemptGuarded (g : Guarded σ α) : Guarded σ (Except Error α) := fun s =>
  match g s with
  | .ok a t => .ok (.ok a) t
  | .error (.failed e) t => .ok (.error e) t
  | .error stop t => .error stop t

def focus (part : σ → τ) (put : σ → τ → σ) (m : EStateM ε τ α) : EStateM ε σ α := fun s =>
  match m (part s) with
  | .ok a t => .ok a (put s t)
  | .error e t => .error e (put s t)

/-- Unless a guard stops it, the guarded action does what the other one does. -/
def Mirrors (g : Guarded σ α) (m : EStateM Error σ α) : Prop := ∀ s r, g s = lifted r → m s = r

variable {g : Guarded σ α} {m : EStateM Error σ α} {s : σ}

theorem lifted_injective {r r' : EStateM.Result Error σ α} (h : lifted r = lifted r') : r = r' := by
  cases r <;> cases r' <;> cases h <;> rfl

theorem bind_apply (g : Guarded σ α) (f : α → Guarded σ β) (s : σ) :
    (g >>= f) s = match g s with
      | .ok a t => f a t
      | .error stop t => .error stop t := by
  change EStateM.bind g f s = _
  rw [EStateM.bind]
  cases g s <;> rfl

theorem mirrors_bare (m : EStateM Error σ α) : Mirrors (bare m) m := by
  intro s r h
  exact lifted_injective h

theorem mirrors_fail (e : Error) : Mirrors (fail e : Guarded σ α) (throw e) := by
  intro s r h
  exact lifted_injective h

theorem mirrors_fail_bind (e : Error) (f : α → EStateM Error σ β) :
    Mirrors (fail e) (throw e >>= f) := by
  intro s r h
  exact lifted_injective h

theorem mirrors_pure (a : α) : Mirrors (pure a : Guarded σ α) (pure a) := by
  intro s r h
  exact lifted_injective h

theorem mirrors_get : Mirrors (get : Guarded σ σ) get := by
  intro s r h
  exact lifted_injective h

theorem mirrors_modify (f : σ → σ) : Mirrors (modify f : Guarded σ PUnit) (modify f) := by
  intro s r h
  exact lifted_injective h

theorem Mirrors.bind {f : α → Guarded σ β} {f' : α → EStateM Error σ β} (h : Mirrors g m)
    (hf : ∀ a, Mirrors (f a) (f' a)) : Mirrors (g >>= f) (m >>= f') := by
  intro s r hr
  rw [bind_apply] at hr
  cases hg : g s with
  | ok a t =>
      rw [hg] at hr
      rw [bind_of_ok (h s (.ok a t) hg)]
      exact hf a t r hr
  | error stop t =>
      rw [hg] at hr
      cases r with
      | ok b u => cases hr
      | error e u =>
          cases hr
          exact bind_of_error (h s (.error e t) hg) f'

theorem Mirrors.check {c : Prop} [Decidable c] {stop : Stop} (hstop : ∀ e, stop ≠ .failed e)
    (h : Mirrors g m) : Mirrors (check c stop >>= fun _ => g) m := by
  intro s r hr
  rw [bind_apply, Guards.check] at hr
  by_cases hc : c
  · rw [if_pos hc] at hr
    exact h s r hr
  · rw [if_neg hc] at hr
    cases r with
    | ok a t => cases hr
    | error e t =>
        cases hr
        exact absurd rfl (hstop e)

theorem Mirrors.fits32 (h : Mirrors g m) (n : Nat) : Mirrors (fits32 n >>= fun _ => g) m :=
  h.check (by rintro e ⟨⟩)

theorem Mirrors.fits64 (h : Mirrors g m) (n : Nat) : Mirrors (fits64 n >>= fun _ => g) m :=
  h.check (by rintro e ⟨⟩)

theorem Mirrors.inside (h : Mirrors g m) (first stop pos n : Nat) :
    Mirrors (inside first stop pos n >>= fun _ => g) m :=
  h.check (by rintro e ⟨⟩)

theorem Mirrors.ite {c : Prop} [Decidable c] {g' : Guarded σ α} {m' : EStateM Error σ α}
    (h : Mirrors g m) (h' : Mirrors g' m') :
    Mirrors (if c then g else g') (if c then m else m') := by
  split
  · exact h
  · exact h'

theorem Mirrors.attempt (h : Mirrors g m) : Mirrors (attemptGuarded g) (attempt m) := by
  intro s r hr
  rw [attemptGuarded] at hr
  rw [Guards.attempt]
  cases hg : g s with
  | ok a t =>
      rw [hg] at hr
      rw [h s (.ok a t) hg]
      exact lifted_injective hr
  | error stop t =>
      rw [hg] at hr
      cases stop with
      | failed e =>
          rw [h s (.error e t) hg]
          exact lifted_injective hr
      | tooWide => cases r <;> cases hr
      | outside => cases r <;> cases hr

theorem Mirrors.focus {g : Guarded τ α} {m : EStateM Error τ α} (h : Mirrors g m) (part : σ → τ)
    (put : σ → τ → σ) : Mirrors (focus part put g) (focus part put m) := by
  intro s r hr
  rw [Guards.focus] at hr
  rw [Guards.focus]
  cases hg : g (part s) with
  | ok a t =>
      rw [hg] at hr
      rw [h _ (.ok a t) hg]
      exact lifted_injective hr
  | error stop t =>
      rw [hg] at hr
      cases r with
      | ok a u => cases hr
      | error e u =>
          cases hr
          rw [h _ (.error e t) hg]

/-- No guard stops the action. Q holds of its value and the state after it, and F of its failure. -/
def Fares (g : Guarded σ α) (s : σ) (Q : α → σ → Prop) (F : Error → σ → Prop) : Prop :=
  match g s with
  | .ok a t => Q a t
  | .error (.failed e) t => F e t
  | .error _ _ => False

section

variable {Q : α → σ → Prop} {R : β → σ → Prop} {F : Error → σ → Prop}

theorem fares_pure {a : α} (h : Q a s) : Fares (pure a) s Q F := h

theorem fares_fail {e : Error} (h : F e s) : Fares (fail e) s Q F := h

theorem fares_bare_of_gives {a : α} {P : σ → Prop} (h : Gives m s a P) (hq : ∀ t, P t → Q a t) :
    Fares (bare m) s Q F := by
  obtain ⟨t, ht, hp⟩ := h
  rw [Fares, bare, ht]
  exact hq t hp

theorem Fares.bind {f : α → Guarded σ β} (h : Fares g s Q F)
    (hf : ∀ a t, Q a t → Fares (f a) t R F) : Fares (g >>= f) s R F := by
  rw [Fares, bind_apply]
  rw [Fares] at h
  cases hg : g s with
  | ok a t =>
      rw [hg] at h
      exact hf a t h
  | error stop t =>
      rw [hg] at h
      cases stop <;> exact h

theorem Fares.mono {Q' : α → σ → Prop} {F' : Error → σ → Prop} (h : Fares g s Q F)
    (hq : ∀ a t, Q a t → Q' a t) (hf : ∀ e t, F e t → F' e t) : Fares g s Q' F' := by
  rw [Fares] at h ⊢
  cases hg : g s with
  | ok a t =>
      rw [hg] at h
      exact hq a t h
  | error stop t =>
      rw [hg] at h
      cases stop with
      | failed e => exact hf e t h
      | tooWide => exact h
      | outside => exact h

theorem Fares.failing {F' : Error → σ → Prop} (h : Fares g s Q F) (hf : ∀ e t, F e t → F' e t) :
    Fares g s Q F' :=
  h.mono (fun _ _ hq => hq) hf

theorem fares_check_bind {c : Prop} [Decidable c] {stop : Stop} (hc : c) (h : Fares g s Q F) :
    Fares (check c stop >>= fun _ => g) s Q F := by
  rw [Fares, bind_apply, check, if_pos hc]
  exact h

theorem fares_fits32_bind {n : Nat} (hn : n < UInt32.size) (h : Fares g s Q F) :
    Fares (fits32 n >>= fun _ => g) s Q F :=
  fares_check_bind hn h

theorem fares_fits64_bind {n : Nat} (hn : n < UInt64.size) (h : Fares g s Q F) :
    Fares (fits64 n >>= fun _ => g) s Q F :=
  fares_check_bind hn h

theorem fares_inside_bind {first stop pos n : Nat} (hfirst : first ≤ pos) (hstop : pos + n ≤ stop)
    (h : Fares g s Q F) : Fares (inside first stop pos n >>= fun _ => g) s Q F :=
  fares_check_bind ⟨hfirst, hstop⟩ h

theorem fares_ite {c : Prop} [Decidable c] {g' : Guarded σ α} (ht : c → Fares g s Q F)
    (hf : ¬ c → Fares g' s Q F) : Fares (if c then g else g') s Q F := by
  split
  · rename_i hc
    exact ht hc
  · rename_i hc
    exact hf hc

theorem fares_get_bind {f : σ → Guarded σ α} (h : Fares (f s) s Q F) : Fares (get >>= f) s Q F := h

theorem fares_modify_bind {u : σ → σ} {f : PUnit → Guarded σ α} (h : Fares (f ⟨⟩) (u s) Q F) :
    Fares (modify u >>= f) s Q F := h

theorem Fares.focus {g : Guarded τ α} {part : σ → τ} {Q : α → τ → Prop} {F : Error → τ → Prop}
    (h : Fares g (part s) Q F) (put : σ → τ → σ) {Q' : α → σ → Prop} {F' : Error → σ → Prop}
    (hq : ∀ a t, Q a t → Q' a (put s t)) (hf : ∀ e t, F e t → F' e (put s t)) :
    Fares (focus part put g) s Q' F' := by
  rw [Fares] at h
  rw [Fares, Guards.focus]
  cases hg : g (part s) with
  | ok a t =>
      rw [hg] at h
      exact hq a t h
  | error stop t =>
      rw [hg] at h
      cases stop with
      | failed e => exact hf e t h
      | tooWide => exact h
      | outside => exact h

theorem Fares.attempt (h : Fares g s Q F) {S : Except Error α → σ → Prop} {G : Error → σ → Prop}
    (hq : ∀ a t, Q a t → S (.ok a) t) (hf : ∀ e t, F e t → S (.error e) t) :
    Fares (attemptGuarded g) s S G := by
  rw [Fares, attemptGuarded]
  rw [Fares] at h
  cases hg : g s with
  | ok a t =>
      rw [hg] at h
      exact hq a t h
  | error stop t =>
      rw [hg] at h
      cases stop with
      | failed e => exact hf e t h
      | tooWide => exact h
      | outside => exact h

theorem Fares.eq_bare (h : Fares g s Q F) (hm : Mirrors g m) :
    g s = bare m s ∧ ((∃ a t, m s = .ok a t ∧ Q a t) ∨ ∃ e t, m s = .error e t ∧ F e t) := by
  rw [Fares] at h
  rw [bare]
  cases hg : g s with
  | ok a t =>
      rw [hg] at h
      have hs := hm s (.ok a t) hg
      rw [hs]
      exact ⟨rfl, .inl ⟨a, t, rfl, h⟩⟩
  | error stop t =>
      rw [hg] at h
      cases stop with
      | failed e =>
          have hs := hm s (.error e t) hg
          rw [hs]
          exact ⟨rfl, .inr ⟨e, t, rfl, h⟩⟩
      | tooWide => exact h.elim
      | outside => exact h.elim

end

/-- A computation and its guarded form, which no guard stops. Q holds of their value, and F of their
failure. -/
def Agrees (x : Except Stop α) (y : Except Error α) (Q : α → Prop) (F : Error → Prop) : Prop :=
  x = y.mapError .failed ∧ ((∃ a, y = .ok a ∧ Q a) ∨ ∃ e, y = .error e ∧ F e)

section

variable {x : Except Stop α} {y : Except Error α} {Q : α → Prop} {F : Error → Prop}

theorem agrees_ok {a : α} (h : Q a) : Agrees (.ok a) (.ok a) Q F := ⟨rfl, .inl ⟨a, rfl, h⟩⟩

theorem agrees_error {e : Error} (h : F e) : Agrees (.error (.failed e)) (.error e : Except _ α) Q F :=
  ⟨rfl, .inr ⟨e, rfl, h⟩⟩

theorem Agrees.bind {f : α → Except Stop β} {f' : α → Except Error β} {R : β → Prop}
    (h : Agrees x y Q F) (hf : ∀ a, Q a → Agrees (f a) (f' a) R F) :
    Agrees (x >>= f) (y >>= f') R F := by
  obtain ⟨rfl, ⟨a, rfl, ha⟩ | ⟨e, rfl, he⟩⟩ := h
  · exact hf a ha
  · exact ⟨rfl, .inr ⟨e, rfl, he⟩⟩

theorem Agrees.mono {Q' : α → Prop} {F' : Error → Prop} (h : Agrees x y Q F)
    (hq : ∀ a, Q a → Q' a) (hf : ∀ e, F e → F' e) : Agrees x y Q' F' := by
  obtain ⟨hsame, ⟨a, ha, hqa⟩ | ⟨e, he, hfe⟩⟩ := h
  · exact ⟨hsame, .inl ⟨a, ha, hq a hqa⟩⟩
  · exact ⟨hsame, .inr ⟨e, he, hf e hfe⟩⟩

theorem agrees_ite {c : Prop} [Decidable c] {x' : Except Stop α} {y' : Except Error α}
    (ht : c → Agrees x y Q F) (hf : ¬ c → Agrees x' y' Q F) :
    Agrees (if c then x else x') (if c then y else y') Q F := by
  split
  · rename_i hc
    exact ht hc
  · rename_i hc
    exact hf hc

theorem Agrees.check {c : Prop} [Decidable c] {x' : Except Stop α} (h : Agrees x y Q F)
    (hc : ¬ c) : Agrees (if c then x' else x) y Q F := by
  rwa [if_neg hc]

end

end Concordance.Proofs.Guards
