import Concordance.Text.Case
import Concordance.Text.WhiteSpace

namespace Concordance.Proofs.SmallForms

open Text

theorem sideOf_lt_of_le {m b : Nat} {r : Nat × Nat} (hb : m ≤ b) (h : sideOf b r = .lt) :
    sideOf m r = .lt := by
  rw [sideOf] at h
  split at h
  · rw [sideOf, if_pos (by omega)]
  · split at h <;> cases h

theorem sideOf_gt_of_le {a m : Nat} {r : Nat × Nat} (ha : a ≤ m) (h : sideOf a r = .gt) :
    sideOf m r = .gt := by
  rw [sideOf] at h
  split at h
  · cases h
  · split at h
    · cases h
    · rw [sideOf, if_neg (by omega), if_neg (by omega)]

def reaching {α : Type} (range : α → Nat × Nat) (a b : Nat) : SearchTree α → List α
  | .leaf => []
  | .node l x r =>
      match sideOf b (range x), sideOf a (range x) with
      | .lt, _ => reaching range a b l
      | _, .gt => reaching range a b r
      | _, _ => reaching range a b l ++ x :: reaching range a b r

theorem mem_reaching {α : Type} {range : α → Nat × Nat} {a m b : Nat} (ha : a ≤ m) (hb : m ≤ b)
    {t : SearchTree α} {x : α} (h : t.find? (fun y => sideOf m (range y)) = some x) :
    x ∈ reaching range a b t := by
  induction t with
  | leaf => cases h
  | node l y r ihl ihr =>
      rw [SearchTree.find?] at h
      rw [reaching]
      split
      · next hside =>
          rw [sideOf_lt_of_le hb hside] at h
          exact ihl h
      · next hside _ =>
          rw [sideOf_gt_of_le ha hside] at h
          exact ihr h
      · rw [List.mem_append, List.mem_cons]
        split at h
        · exact .inl (ihl h)
        · exact .inr (.inl (Option.some.inj h).symm)
        · exact .inr (.inr (ihr h))

def lastImage (r : CaseRun) : Nat := r.image + (r.last - r.first)

theorem of_map? {r : CaseRun} {n m : Nat} (h : r.map? n = some m) :
    r.first ≤ n ∧ n ≤ r.last ∧ (n - r.first) % r.stride = 0 ∧ m = r.image + (n - r.first) := by
  rw [CaseRun.map?] at h
  split at h
  · rename_i hn
    exact ⟨hn.1, hn.2.1, hn.2.2, (Option.some.inj h).symm⟩
  · cases h

theorem exists_run_of_smallForm? {n m : Nat} (h : smallForm? n = some m) :
    ∃ r ∈ lowercaseRuns, r.map? n = some m := by
  rw [smallForm?_eq, Option.bind_eq_some_iff] at h
  obtain ⟨r, hr, hm⟩ := h
  exact ⟨r, List.mem_of_find?_eq_some hr, hm⟩

/-- Where the small letters of a run stand among other letters that have a small form, large and
small letters take turns. -/
theorem images_interleaved : ∀ r ∈ lowercaseRuns,
    ∀ s ∈ reaching CaseRun.range r.image (lastImage r) lowercaseTree,
      s.stride = 2 ∧ (s.first + r.image) % 2 = 1 ∧ (r.stride = 2 ∨ r.first = r.last) := by
  decide +kernel

/-- The dotted capital I is not in the table, but has a small form, too. -/
theorem images_apart : ∀ r ∈ lowercaseRuns,
    (lastImage r < 'İ'.toNat ∨ 'İ'.toNat < r.image) ∧
      (lastImage r < 0xD800 ∨ 0xDFFF < r.image ∧ lastImage r < 0x110000) ∧
      'a'.toNat ≤ r.image ∧ reaching id r.image (lastImage r) whiteSpace.tree = [] := by
  decide +kernel

theorem le_lastImage {r : CaseRun} {n m : Nat} (h : r.map? n = some m) :
    r.image ≤ m ∧ m ≤ lastImage r := by
  obtain ⟨_, hlast, _, rfl⟩ := of_map? h
  rw [lastImage]
  omega

theorem smallForm?_image {r : CaseRun} (hr : r ∈ lowercaseRuns) {n m : Nat}
    (h : r.map? n = some m) : smallForm? m = none := by
  obtain ⟨hfirst, hlast⟩ := le_lastImage h
  rw [smallForm?, Option.bind_eq_none_iff]
  intro s hs
  obtain ⟨hstride, hodd, hevery⟩ := images_interleaved r hr s (mem_reaching hfirst hlast hs)
  -- all images of the run lie an even number of letters apart
  have heven : (m - r.image) % 2 = 0 := by
    obtain ⟨hle, hle', hmod, rfl⟩ := of_map? h
    rcases hevery with htwo | hone
    · rw [htwo] at hmod
      omega
    · omega
  rw [CaseRun.map?, hstride, if_neg (by omega)]

theorem isWhiteSpace_image {r : CaseRun} (hr : r ∈ lowercaseRuns) {n : Nat} {d : Char}
    (h : r.map? n = some d.toNat) : isWhiteSpace d = false := by
  obtain ⟨_, _, _, hspace⟩ := images_apart r hr
  obtain ⟨hfirst, hlast⟩ := le_lastImage h
  rw [isWhiteSpace, CharClass.has, Option.isSome_eq_false_iff, Option.isNone_iff_eq_none,
    Option.eq_none_iff_forall_ne_some]
  intro w hw
  have hmem : w ∈ reaching id r.image (lastImage r) whiteSpace.tree := mem_reaching hfirst hlast hw
  rw [hspace] at hmem
  cases hmem

def Small (c : Char) : Prop := lowercaseChar c = [c] ∧ c ≠ 'Σ'

/-- No white space, and behind all marks of ASCII at which words end. -/
def Letterlike (c : Char) : Prop := isWhiteSpace c = false ∧ 'a'.toNat ≤ c.toNat

/-- What is not up to the table: the sigma is in it, but is left to its neighbours, and the small
forms of the sigma and of the dotted capital I have none in turn. -/
theorem special_forms : (smallForm? 'Σ'.toNat).isSome ∧
    ∀ d ∈ ['i', '\u0307', 'ς', 'σ'], smallForm? d.toNat = none ∧ d ≠ 'İ' ∧ isWhiteSpace d = false ∧
      'a'.toNat ≤ d.toNat := by
  rw [List.forall_mem_cons, List.forall_mem_cons, List.forall_mem_cons, List.forall_mem_singleton]
  decide +kernel

theorem small_of_smallForm?_none {c : Char} (h : smallForm? c.toNat = none) (hdotted : c ≠ 'İ') :
    Small c := by
  refine ⟨by rw [lowercaseChar, if_neg hdotted, h, Option.map_none, Option.getD_none], ?_⟩
  rintro rfl
  have hsigma := special_forms.1
  rw [h] at hsigma
  cases hsigma

theorem small_special {d : Char} (h : d ∈ ['i', '\u0307', 'ς', 'σ']) : Small d ∧ Letterlike d := by
  obtain ⟨hnone, hdotted, hletter⟩ := special_forms.2 d h
  exact ⟨small_of_smallForm?_none hnone hdotted, hletter⟩

theorem mem_lowercaseChar {c d : Char} (h : d ∈ lowercaseChar c) :
    Small d ∧ (d = c ∨ Letterlike d) := by
  rw [lowercaseChar] at h
  split at h
  · obtain ⟨hsmall, hletter⟩ := small_special (List.mem_append_left ['ς', 'σ'] h)
    exact ⟨hsmall, .inr hletter⟩
  · rename_i hdotted
    cases hform : smallForm? c.toNat with
    | none =>
        rw [hform, Option.map_none, Option.getD_none, List.mem_singleton] at h
        exact ⟨h ▸ small_of_smallForm?_none hform hdotted, .inl h⟩
    | some m =>
        rw [hform, Option.map_some, Option.getD_some, List.mem_singleton] at h
        obtain ⟨r, hr, hm⟩ := exists_run_of_smallForm? hform
        obtain ⟨hdotted', hvalid, hletter, _⟩ := images_apart r hr
        obtain ⟨hfirst, hlast⟩ := le_lastImage hm
        have hcode : d.toNat = m := by
          rw [h, Char.ofNat, dif_pos (by rw [Nat.isValidChar]; omega)]
          rfl
        rw [← hcode] at hm hfirst hlast
        refine ⟨small_of_smallForm?_none (smallForm?_image hr hm) ?_,
          .inr ⟨isWhiteSpace_image hr hm, Nat.le_trans hletter hfirst⟩⟩
        rintro rfl
        omega

theorem mem_lowercaseFrom {before s : List Char} {d : Char} (h : d ∈ lowercaseFrom before s) :
    Small d ∧ (d ∈ s ∨ Letterlike d) := by
  induction s generalizing before with
  | nil => cases h
  | cons c s ih =>
      rw [lowercaseFrom, List.mem_append] at h
      rcases h with h | h
      · split at h
        · rw [List.mem_singleton] at h
          obtain ⟨hsmall, hletter⟩ := small_special (d := d) (by rw [h]; split <;> simp)
          exact ⟨hsmall, .inr hletter⟩
        · obtain ⟨hsmall, hletter⟩ := mem_lowercaseChar h
          exact ⟨hsmall, hletter.imp_left fun heq => List.mem_cons.mpr (.inl heq)⟩
      · obtain ⟨hsmall, hletter⟩ := ih h
        exact ⟨hsmall, hletter.imp_left (List.mem_cons_of_mem c)⟩

theorem lowercaseFrom_of_small {s : List Char} (h : ∀ d ∈ s, Small d) (before : List Char) :
    lowercaseFrom before s = s := by
  induction s generalizing before with
  | nil => rfl
  | cons c s ih =>
      obtain ⟨hchar, hsigma⟩ := h c List.mem_cons_self
      rw [lowercaseFrom, if_neg hsigma, hchar, ih fun d hd => h d (List.mem_cons_of_mem c hd),
        List.singleton_append]

theorem lowercase_lowercase (s : String) : lowercase (lowercase s) = lowercase s := by
  have hsmall := lowercaseFrom_of_small (fun d hd => (mem_lowercaseFrom hd).1)
    (s := lowercaseFrom [] s.toList) []
  rw [lowercase, lowercase, String.toList_ofList, hsmall]

end Concordance.Proofs.SmallForms
