import Mathlib.Data.List.Forall2
import Concordance.Proofs.SearchableWords

namespace Concordance.Proofs.CaseFolding

open Analysis Text Pieces Words SmallForms StoppedWords SearchableWords

def titleCase : CharClass where
  ranges :=
    [(0x1C5, 0x1C5), (0x1C8, 0x1C8), (0x1CB, 0x1CB), (0x1F2, 0x1F2), (0x1F88, 0x1F8F),
      (0x1F98, 0x1F9F), (0x1FA8, 0x1FAF), (0x1FBC, 0x1FBC), (0x1FCC, 0x1FCC), (0x1FFC, 0x1FFC)]

theorem run_capital_or_titleCase : ∀ r ∈ lowercaseRuns, ∀ k ∈ List.range (r.last + 1 - r.first),
    k % r.stride = 0 → isUppercase (Char.ofNat (r.first + k)) = true ∨
      titleCase.has (Char.ofNat (r.first + k)) = true := by
  decide +kernel

theorem titleCase_changes : ∀ r ∈ titleCase.ranges, ∀ k ∈ List.range (r.2 + 1 - r.1),
    lowercaseChar (Char.ofNat (r.1 + k)) ≠ [Char.ofNat (r.1 + k)] := by
  decide +kernel

theorem capital_specials : isUppercase 'İ' = true ∧ isUppercase 'Σ' = true := by decide +kernel

variable {c d : Char} {s v w : String}

theorem not_small_of_titleCase (h : titleCase.has c = true) : ¬ Small c := by
  obtain ⟨r, hr, hfirst, hlast⟩ := (titleCase.has_eq_true_iff c).mp h
  have hchanges := titleCase_changes r hr (c.toNat - r.1) (List.mem_range.mpr (by omega))
  rw [Nat.add_sub_cancel' hfirst, Char.ofNat_toNat] at hchanges
  exact fun hsmall => hchanges hsmall.1

theorem small_iff_of_not_uppercase (h : isUppercase c = false) :
    Small c ↔ titleCase.has c = false := by
  constructor
  · intro hsmall
    rw [← Bool.not_eq_true]
    exact fun htitle => not_small_of_titleCase htitle hsmall
  · intro htitle
    have hdotted : c ≠ 'İ' := by
      rintro rfl
      rw [capital_specials.1] at h
      cases h
    apply small_of_smallForm?_none _ hdotted
    rw [Option.eq_none_iff_forall_ne_some]
    intro m hm
    obtain ⟨r, hr, hmap⟩ := exists_run_of_smallForm? hm
    obtain ⟨hfirst, hlast, hstride, -⟩ := of_map? hmap
    have hletter := run_capital_or_titleCase r hr (c.toNat - r.first)
      (List.mem_range.mpr (by omega)) hstride
    rw [Nat.add_sub_cancel' hfirst, Char.ofNat_toNat, h, htitle] at hletter
    simp at hletter

theorem lowercase_eq_self_iff (s : String) : lowercase s = s ↔ ∀ c ∈ s.toList, Small c := by
  constructor
  · intro h c hc
    rw [← h, lowercase, String.toList_ofList] at hc
    exact (mem_lowercaseFrom hc).1
  · intro h
    rw [lowercase, lowercaseFrom_of_small h, String.ofList_toList]

/-- A text of which no character is a capital, but one is of title case. -/
def overlooked (s : String) : Bool :=
  !s.toList.any isUppercase && s.toList.any titleCase.has

/-- What is overlooked would have to be put into small letters, and nothing else is overlooked. -/
theorem overlooked_iff (s : String) :
    overlooked s = true ↔ s.toList.any isUppercase = false ∧ lowercase s ≠ s := by
  rw [overlooked, Bool.and_eq_true, Bool.not_eq_true', and_congr_right_iff]
  intro hupper
  rw [List.any_eq_false] at hupper
  rw [Ne, lowercase_eq_self_iff, List.any_eq_true]
  constructor
  · rintro ⟨c, hc, htitle⟩ hall
    exact not_small_of_titleCase htitle (hall c hc)
  · intro hnot
    by_contra hnone
    apply hnot
    intro c hc
    rw [small_iff_of_not_uppercase (by simpa using hupper c hc), ← Bool.not_eq_true]
    exact fun htitle => hnone ⟨c, hc, htitle⟩

theorem fold_eq (s : String) : fold s = if overlooked s then s else lowercase s := by
  by_cases hover : overlooked s = true
  · have hupper := ((overlooked_iff s).mp hover).1
    rw [if_pos hover, fold, hupper, if_neg Bool.false_ne_true]
  · rw [if_neg hover, fold_eq_lowercase_iff]
    rw [overlooked_iff, not_and_not_right] at hover
    cases hupper : s.toList.any isUppercase with
    | true => exact .inl rfl
    | false => exact .inr (hover hupper)

theorem fold_eq_fold_iff (h : lowercase v = lowercase w) :
    fold v = fold w ↔ v = w ∨ overlooked v = false ∧ overlooked w = false := by
  have hpasses : ∀ {x y : String}, lowercase x = lowercase y → overlooked x = true →
      x = lowercase y → False := by
    intro x y hxy hx heq
    exact ((overlooked_iff x).mp hx).2 (hxy.trans heq.symm)
  rw [fold_eq, fold_eq]
  cases hv : overlooked v with
  | false =>
      cases hw : overlooked w with
      | false => simp [h]
      | true =>
          have hne : lowercase v ≠ w := fun heq => hpasses h.symm hw heq.symm
          have hdiffer : v ≠ w := by
            rintro rfl
            rw [hv] at hw
            cases hw
          simp [hne, hdiffer]
  | true =>
      cases hw : overlooked w with
      | false =>
          have hne : v ≠ lowercase w := fun heq => hpasses h hv heq
          have hdiffer : v ≠ w := by
            rintro rfl
            rw [hv] at hw
            cases hw
          simp [hne, hdiffer]
      | true => simp

theorem delimiters_apart : (∀ r ∈ whiteSpace.ranges,
    reaching CaseRun.range r.1 r.2 lowercaseTree = [] ∧ ('İ'.toNat < r.1 ∨ r.2 < 'İ'.toNat)) ∧
      ∀ d ∈ marks, smallForm? d.toNat = none ∧ d ≠ 'İ' := by
  constructor
  · decide +kernel
  · -- By the list, since the search for a decision procedure may come upon all characters.
    have hmarks : (marks.all fun d => smallForm? d.toNat = none ∧ d ≠ 'İ') = true := by
      decide +kernel
    intro d hd
    exact of_decide_eq_true (List.all_eq_true.mp hmarks d hd)

theorem small_of_isDelimiter (h : isDelimiter d = true) : Small d := by
  rcases (isDelimiter_iff d).mp h with hspace | hmark
  · obtain ⟨r, hr, hfirst, hlast⟩ := (whiteSpace.has_eq_true_iff d).mp hspace
    obtain ⟨hapart, hdotted⟩ := delimiters_apart.1 r hr
    apply small_of_smallForm?_none
    · rw [smallForm?, Option.bind_eq_none_iff]
      intro run hrun
      have hmem := mem_reaching hfirst hlast hrun
      rw [hapart] at hmem
      cases hmem
    · rintro rfl
      omega
  · obtain ⟨hnone, hdotted⟩ := delimiters_apart.2 d hmark
    exact small_of_smallForm?_none hnone hdotted

theorem mem_lowercaseFrom_of_small {before s : List Char} (hd : d ∈ s) (h : Small d) :
    d ∈ lowercaseFrom before s := by
  induction s generalizing before with
  | nil => cases hd
  | cons c s ih =>
      rw [lowercaseFrom, List.mem_append]
      rcases List.mem_cons.mp hd with rfl | hd
      · rw [if_neg h.2, h.1]
        exact .inl List.mem_cons_self
      · exact .inr (ih hd)

theorem undivided_of_lowercase_eq (h : lowercase v = lowercase w)
    (hv : ∀ c ∈ v.toList, isDelimiter c = false) : ∀ c ∈ w.toList, isDelimiter c = false := by
  intro c hc
  by_contra hcut
  have hmem : c ∈ lowercaseFrom [] w.toList :=
    mem_lowercaseFrom_of_small hc (small_of_isDelimiter (by simpa using hcut))
  have hsame : lowercaseFrom [] v.toList = lowercaseFrom [] w.toList := String.ofList_injective h
  rw [← hsame] at hmem
  rcases (mem_lowercaseFrom hmem).2 with hin | hletter
  · exact hcut (hv c hin)
  · exact hcut (not_isDelimiter_of_letterlike hletter)

theorem eq_empty_iff_of_lowercase_eq (h : lowercase v = lowercase w) : v = "" ↔ w = "" := by
  constructor
  · rintro rfl
    by_contra hne
    exact lowercase_ne_empty hne h.symm
  · rintro rfl
    by_contra hne
    exact lowercase_ne_empty hne h

theorem trim_of_undivided (h : ∀ c ∈ s.toList, isDelimiter c = false) : trim s = s := by
  rw [trim, strip, stripChars_of_forall, String.ofList_toList]
  intro c hc
  rw [← Bool.not_eq_true]
  intro hspace
  have hcut := h c hc
  rw [isDelimiter_of_isWhiteSpace c hspace] at hcut
  cases hcut

theorem forall_words_eq_iff (h : lowercase v = lowercase w)
    (hv : ∀ c ∈ v.toList, isDelimiter c = false) :
    (∀ a : Analyzer, a.words v = a.words w) ↔ fold v = fold w := by
  have hempty := eq_empty_iff_of_lowercase_eq h
  have hw := undivided_of_lowercase_eq h hv
  have hwords : ∀ (a : Analyzer) {s : String}, (∀ c ∈ s.toList, isDelimiter c = false) →
      a.words s = if s = "" ∨ fold s ∈ a.stopWords then [] else [fold s] := by
    intro a s hs
    have htrim := trim_of_undivided hs
    have hwhole := hs
    rw [← htrim] at hwhole
    have hwords := words_of_undivided a hwhole
    rwa [htrim] at hwords
  constructor
  · intro hall
    have hfree := hall ⟨[], 0⟩
    rw [hwords _ hv, hwords _ hw] at hfree
    by_cases hnil : v = ""
    · rw [hnil, hempty.mp hnil]
    · simpa [hnil, mt hempty.mpr hnil] using hfree
  · intro hfold a
    rw [hwords a hv, hwords a hw, hfold]
    simp only [hempty]

structure Folded (t u : Token) : Prop where
  position : u.position = t.position
  start : u.start = t.start
  stop : u.stop = t.stop
  stopped : u.stopped = t.stopped
  kept : t.stopped = true → u.text = t.text
  text : t.stopped = false → u.text = if overlooked t.text then t.text else lowercase t.text

theorem folded_lowercaseToken (t : Token) : Folded t (Filter.lowercaseToken t) := by
  obtain ⟨text, position, start, stop, stopped⟩ := t
  rw [Filter.lowercaseToken]
  cases stopped with
  | true =>
      refine ⟨rfl, rfl, rfl, rfl, fun _ => rfl, ?_⟩
      intro h
      cases h
  | false =>
      have hkept {u : String} : false = true → u = text := by
        intro h
        cases h
      have hfold := fold_eq text
      rw [fold] at hfold
      dsimp only
      cases hupper : text.toList.any isUppercase with
      | true =>
          rw [hupper, if_pos rfl] at hfold
          exact ⟨rfl, rfl, rfl, rfl, hkept, fun _ => hfold⟩
      | false =>
          rw [hupper, if_neg Bool.false_ne_true] at hfold
          exact ⟨rfl, rfl, rfl, rfl, hkept, fun _ => hfold⟩

/-- The tokens stay as many and in their order, each with its place, and a stopped one with its text.
Each other one gets its small form, unless it is overlooked: a text that keeps its letters although
it has another small form, since none of them is a capital. Two spellings of one word with the same
small form are the same word, wherever they are indexed or searched for, exactly if neither of them
is overlooked, or they do not differ. -/
theorem lowercase_folds (ts : List Token) :
    List.Forall₂ Folded ts (Filter.lowercase.apply ts) ∧
      (∀ s, overlooked s = true ↔ s.toList.any isUppercase = false ∧ lowercase s ≠ s) ∧
      ∀ v w, lowercase v = lowercase w → (∀ c ∈ v.toList, isDelimiter c = false) →
        ((∀ a : Analyzer, a.words v = a.words w) ↔
          v = w ∨ overlooked v = false ∧ overlooked w = false) := by
  refine ⟨?_, overlooked_iff, ?_⟩
  · rw [Filter.apply, List.forall₂_map_right_iff, List.forall₂_same]
    exact fun t _ => folded_lowercaseToken t
  · intro v w h hv
    rw [forall_words_eq_iff h hv, fold_eq_fold_iff h]

theorem lowercase_folds_sigma :
    List.Forall₂ Folded [⟨"ΣΑΣ", 0, 0, 6, false⟩, ⟨"Ος", 1, 7, 11, true⟩]
        (Filter.lowercase.apply [⟨"ΣΑΣ", 0, 0, 6, false⟩, ⟨"Ος", 1, 7, 11, true⟩]) ∧
      ∀ a : Analyzer, a.words "ΣΑΣ" = a.words "σΑς" := by
  obtain ⟨hfolded, -, hspellings⟩ :=
    lowercase_folds [⟨"ΣΑΣ", 0, 0, 6, false⟩, ⟨"Ος", 1, 7, 11, true⟩]
  have hsmall : lowercase "ΣΑΣ" = lowercase "σΑς" := by decide +kernel
  have hletters : ("ΣΑΣ".toList.all fun c => isDelimiter c = false) = true := by decide +kernel
  have hundivided : ∀ c ∈ "ΣΑΣ".toList, isDelimiter c = false :=
    fun c hc => of_decide_eq_true (List.all_eq_true.mp hletters c hc)
  exact ⟨hfolded, (hspellings _ _ hsmall hundivided).mpr (.inr (by decide +kernel))⟩

/-- A letter of title case keeps its form, so that it is not the word that the capital is. -/
theorem titleCase_kept :
    Filter.lowercase.apply [⟨"ǅ", 0, 0, 2, false⟩] = [⟨"ǅ", 0, 0, 2, false⟩] ∧
      lowercase "ǅ" = "ǆ" ∧ lowercase "Ǆ" = "ǆ" ∧
      (Analyzer.ofConfig {}).words "ǅ" = ["ǅ"] ∧ (Analyzer.ofConfig {}).words "Ǆ" = ["ǆ"] := by
  decide +kernel

end Concordance.Proofs.CaseFolding
