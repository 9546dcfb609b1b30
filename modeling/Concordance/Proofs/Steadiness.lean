import Concordance.Proofs.Corruption
import Concordance.Proofs.Locality

namespace Concordance.Proofs.Steadiness

open BlockStore Positioned Cursors Outcomes Guards GuardedViews StoreReading StoreSearch Containment
  StoreSafety Lockstep Locality

section

variable {σ τ α β : Type} {K : σ → Prop} {m : EStateM Error σ α} {x : Except Error α}

theorem bind_eq_of_eq {s t : σ} (h : m s = m t) (f : α → EStateM Error σ β) :
    (m >>= f) s = (m >>= f) t := by
  change EStateM.bind m f s = EStateM.bind m f t
  rw [EStateM.bind, EStateM.bind, h]

/-- From all states of a kind the action has the same outcome, and the state stays of that kind. -/
def Steady (K : σ → Prop) (m : EStateM Error σ α) (x : Except Error α) : Prop :=
  ∀ s, K s → outcomeOf (m s) = x ∧ K (stateOf (m s))

theorem Steady.bind {f : α → EStateM Error σ β} {y : α → Except Error β} (h : Steady K m x)
    (hf : ∀ a, Steady K (f a) (y a)) : Steady K (m >>= f) (x >>= y) := by
  intro s hs
  obtain ⟨rfl, ht⟩ := h s hs
  cases hm : m s with
  | ok a t =>
      rw [hm] at ht
      rw [bind_of_ok hm]
      exact hf a t ht
  | error e t =>
      rw [hm] at ht
      rw [bind_of_error hm]
      exact ⟨rfl, ht⟩

theorem steady_pure (a : α) : Steady K (pure a) (.ok a) := fun _ hs => ⟨rfl, hs⟩

theorem steady_throw (e : Error) : Steady K (throw e : EStateM Error σ α) (.error e) :=
  fun _ hs => ⟨rfl, hs⟩

theorem steady_get_bind {f : σ → EStateM Error σ α} (hf : ∀ s, K s → Steady K (f s) x) :
    Steady K (get >>= f) x :=
  fun s hs => hf s hs s hs

theorem Steady.focus {part : τ → σ} {put : τ → σ → τ} {L : τ → Prop} (h : Steady K m x)
    (hpart : ∀ t, L t → K (part t)) (hput : ∀ t s, L t → K s → L (put t s)) :
    Steady L (focus part put m) x := by
  intro t ht
  obtain ⟨hout, hs⟩ := h (part t) (hpart t ht)
  rw [Guards.focus]
  cases hm : m (part t) with
  | ok a s =>
      rw [hm] at hout hs
      exact ⟨hout, hput t s ht hs⟩
  | error e s =>
      rw [hm] at hout hs
      exact ⟨hout, hput t s ht hs⟩

theorem Steady.outcome {s : σ} (h : Steady K m x) (hs : K s) : Steady K m (outcomeOf (m s)) := by
  rwa [(h s hs).1]

end

variable {p : Tape} {u v w : View}

theorem seek_again {r : Reader} {pos : Nat} (hr : At p r pos) : Reader.seek pos r = .ok () r := by
  simp [Reader.seek, hr.account]

/-- A search begins with a seek, so it might as well begin behind that. -/
theorem search_sought {n : Nat} {c : Lookup} (h : Contained p v) (hslot : c.slot ≤ v.length) :
    ∃ r, At p r (v.base + c.slot) ∧
      View.search (n + 1) c v = View.search (n + 1) c { v with reader := r } := by
  have hwide := h.addressable
  obtain ⟨old, hold⟩ := h.reader
  obtain ⟨r, hseek, hr⟩ := hold.seek (n := v.base + c.slot) (by omega)
  have hsought : View.seek c.slot v = .ok () { v with reader := r } := by
    simp only [View.seek, get_bind, View.onReader, hseek]
  have hagain : View.seek c.slot { v with reader := r } = .ok () { v with reader := r } := by
    simp only [View.seek, get_bind, View.onReader, seek_again hr]
  refine ⟨r, hr, ?_⟩
  rw [search_succ, bind_of_ok hsought, bind_of_ok hagain]

theorem findNext_sought {c : Lookup} (h : Contained p v) (hlookup : v.lookup = some c)
    (hp : c.probes < c.table.slots) :
    ∃ r, At p r (v.base + c.slot) ∧ View.findNext v = View.findNext { v with reader := r } := by
  have hidle : Contained p { v with lookup := none } := h.withLookup (by simp)
  have hslot := (h.lookup c hlookup).slot_le hp
  obtain ⟨n, hn⟩ : ∃ n, c.table.slots - c.probes = n + 1 :=
    ⟨_, (Nat.sub_add_cancel (by omega)).symm⟩
  obtain ⟨r, hr, hsearch⟩ := search_sought (n := n) hidle (c := c) (by
    change c.slot ≤ v.length
    omega)
  refine ⟨r, hr, ?_⟩
  rw [View.findNext, get_bind, get_bind]
  simp only [hlookup, hn]
  change (View.search (n + 1) c >>= _) { v with lookup := none } =
    (View.search (n + 1) c >>= _) { v with reader := r, lookup := none }
  exact bind_eq_of_eq hsearch _

theorem findNext_exhausted {c : Lookup} (hlookup : v.lookup = some c)
    (hp : c.table.slots - c.probes = 0) : outcomeOf (View.findNext v) = .ok none := by
  rw [View.findNext, get_bind]
  simp only [hlookup, hp]
  rfl

theorem findNext_outcome_eq {c : Lookup} (hv : Kept p u v) (hw : Kept p u w)
    (hlookup : v.lookup = some c) (hlookup' : w.lookup = some c) :
    outcomeOf (View.findNext v) = outcomeOf (View.findNext w) := by
  by_cases hp : c.probes < c.table.slots
  · obtain ⟨r, hr, hfind⟩ := findNext_sought hv.contained hlookup hp
    obtain ⟨r', hr', hfind'⟩ := findNext_sought hw.contained hlookup' hp
    have hbase : w.base = v.base := hw.base.trans hv.base.symm
    have hlength : w.length = v.length := hw.length.trans hv.length.symm
    have hinside := hv.contained.inside
    have htwins : Twins p p { v with reader := r } { w with reader := r' } :=
      { window := ⟨hinside, hbase ▸ hinside, by rw [hbase]⟩
        length := hlength
        tables := hw.tables.trans hv.tables.symm
        lookup := hlookup'.trans hlookup.symm
        reader := ⟨c.slot, hr, hr'⟩ }
    have hcontained := hv.contained.moved (w := { v with reader := r }) ⟨r, rfl, _, hr⟩
    have hcontained' := hw.contained.moved (w := { w with reader := r' }) ⟨r', rfl, _, hr'⟩
    rw [hfind, hfind']
    exact ((findNext_inStep htwins).alike
      ((findNext_fares hcontained).eq_bare mirrors_findNext).1
      ((findNext_fares hcontained').eq_bare mirrors_findNext).1).outcome_eq.1
  · have hnone : c.table.slots - c.probes = 0 := by omega
    rw [findNext_exhausted hlookup hnone, findNext_exhausted hlookup' hnone]

theorem find_outcome_eq (hv : Kept p u v) (hw : Kept p u w) (key : Bytes) :
    outcomeOf (View.find key v) = outcomeOf (View.find key w) := by
  have htable : w.tableOf (KeyHash.hash key) = v.tableOf (KeyHash.hash key) := by
    rw [hv.tableOf, hw.tableOf]
  have hlookup : (w.findStart key).lookup = (v.findStart key).lookup := by
    simp only [View.findStart, htable]
  exact findNext_outcome_eq (hv.trans (kept_findStart hv.contained key))
    (hw.trans (kept_findStart hw.contained key)) rfl hlookup

theorem find_steady (h : Contained p u) (key : Bytes) :
    Steady (Kept p u) (View.find key) (outcomeOf (View.find key u)) := by
  intro v hv
  refine ⟨find_outcome_eq hv h.keptSelf key, ?_⟩
  obtain ⟨-, ⟨found, t, hrun, ht, -⟩ | ⟨e, t, hrun, -, ht⟩⟩ :=
    (find_fares hv.contained key).eq_bare (mirrors_find key)
  · rw [hrun]
    exact hv.trans ht
  · rw [hrun]
    exact hv.trans ht

end Concordance.Proofs.Steadiness
