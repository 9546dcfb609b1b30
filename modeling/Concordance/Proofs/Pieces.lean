import Mathlib.Data.List.TakeWhile
import Concordance.Text.Split

namespace Concordance.Proofs.Pieces

open Text

variable {p q : Char → Bool} {c : Char}

theorem fieldsOf_of_forall {s : List Char} (h : ∀ c ∈ s, p c = false) : fieldsOf p s = [s] := by
  induction s with
  | nil => rfl
  | cons c s ih =>
      rw [fieldsOf, if_neg (by simp [h c (by simp)]), ih fun d hd => h d (by simp [hd])]

theorem fieldsOf_append_cons (hc : p c = true) (s t : List Char) :
    fieldsOf p (s ++ c :: t) = fieldsOf p s ++ fieldsOf p t := by
  induction s with
  | nil => simp [fieldsOf, hc]
  | cons d s ih =>
      rw [List.cons_append, fieldsOf, fieldsOf]
      split
      · rw [ih, List.cons_append]
      · rw [ih]
        cases hs : fieldsOf p s with
        | nil => exact absurd hs (fieldsOf_ne_nil p s)
        | cons f fs => rfl

/-- A text is without characters of the class, or it is cut at the first of them. -/
theorem cut_induction {P : List Char → Prop} (p : Char → Bool)
    (whole : ∀ s, (∀ c ∈ s, p c = false) → P s)
    (cut : ∀ s c t, (∀ d ∈ s, p d = false) → p c = true → P t → P (s ++ c :: t)) (s : List Char) :
    P s := by
  have hall : ∀ before, (∀ c ∈ before, p c = false) → P (before ++ s) := by
    induction s with
    | nil =>
        intro before hbefore
        rw [List.append_nil]
        exact whole before hbefore
    | cons c s ih =>
        intro before hbefore
        cases hc : p c with
        | true => exact cut before c s hbefore hc (ih [] (by simp))
        | false =>
            rw [← List.singleton_append, ← List.append_assoc]
            apply ih
            intro d hd
            rcases List.mem_append.mp hd with hd | hd
            · exact hbefore d hd
            · rwa [List.mem_singleton.mp hd]
  exact hall [] (by simp)

theorem intercalate_fieldsOf (sep : Char) (s : List Char) :
    List.intercalate [sep] (fieldsOf (fun c => c = sep) s) = s := by
  induction s using cut_induction (fun c => c = sep) with
  | whole s hs => rw [fieldsOf_of_forall hs, List.intercalate_singleton]
  | cut s c t hs hc ih =>
      obtain rfl : c = sep := of_decide_eq_true hc
      obtain ⟨f, fs, hfs⟩ := List.exists_cons_of_ne_nil (fieldsOf_ne_nil (fun d => d = c) t)
      rw [hfs] at ih
      rw [fieldsOf_append_cons hc, fieldsOf_of_forall hs, hfs, List.singleton_append,
        List.intercalate_cons_cons, ih, List.append_assoc, List.singleton_append]

/-- The longest stretches without characters of the class. -/
def pieces (p : Char → Bool) (s : List Char) : List (List Char) := (fieldsOf p s).filter (· ≠ [])

theorem pieces_of_forall {s : List Char} (h : ∀ c ∈ s, p c = false) :
    pieces p s = [s].filter (· ≠ []) := by
  rw [pieces, fieldsOf_of_forall h]

theorem pieces_nil : pieces p [] = [] := rfl

theorem pieces_append_cons (hc : p c = true) (s t : List Char) :
    pieces p (s ++ c :: t) = pieces p s ++ pieces p t := by
  rw [pieces, fieldsOf_append_cons hc, List.filter_append]
  rfl

theorem pieces_cons (hc : p c = true) (s : List Char) : pieces p (c :: s) = pieces p s :=
  pieces_append_cons hc [] s

theorem pieces_append_of_forall {gap : List Char} (h : ∀ c ∈ gap, p c = true) (s : List Char) :
    pieces p (gap ++ s) = pieces p s := by
  induction gap with
  | nil => rfl
  | cons c gap ih =>
      rw [List.forall_mem_cons] at h
      rw [List.cons_append, pieces_cons h.1, ih h.2]

theorem pieces_append_gap {gap : List Char} (h : ∀ c ∈ gap, p c = true) (hne : gap ≠ [])
    (s t : List Char) : pieces p (s ++ gap ++ t) = pieces p s ++ pieces p t := by
  obtain ⟨c, gap, rfl⟩ := List.exists_cons_of_ne_nil hne
  rw [List.forall_mem_cons] at h
  rw [List.append_assoc, List.cons_append, pieces_append_cons h.1, pieces_append_of_forall h.2]

theorem pieces_append_right {gap : List Char} (h : ∀ c ∈ gap, p c = true) (s : List Char) :
    pieces p (s ++ gap) = pieces p s := by
  by_cases hne : gap = []
  · rw [hne, List.append_nil]
  · have hgap := pieces_append_gap h hne s []
    rwa [List.append_nil, pieces_nil, List.append_nil] at hgap

theorem mem_pieces {f s : List Char} (h : f ∈ pieces p s) :
    f ≠ [] ∧ ∀ c ∈ f, c ∈ s ∧ p c = false := by
  induction s using cut_induction p with
  | whole s hs =>
      rw [pieces_of_forall hs] at h
      obtain ⟨hf, hne⟩ := List.mem_filter.mp h
      obtain rfl := List.mem_singleton.mp hf
      exact ⟨of_decide_eq_true hne, fun c hc => ⟨hc, hs c hc⟩⟩
  | cut s c t hs hc ih =>
      rw [pieces_append_cons hc, pieces_of_forall hs, List.mem_append] at h
      rcases h with h | h
      · obtain ⟨hf, hne⟩ := List.mem_filter.mp h
        obtain rfl := List.mem_singleton.mp hf
        exact ⟨of_decide_eq_true hne, fun d hd => ⟨by simp [hd], hs d hd⟩⟩
      · obtain ⟨hne, hall⟩ := ih h
        exact ⟨hne, fun d hd => ⟨by simp [(hall d hd).1], (hall d hd).2⟩⟩

theorem length_pieces_le (p : Char → Bool) (s : List Char) :
    (pieces p s).length ≤ s.length + 1 := by
  induction s using cut_induction p with
  | whole s hs =>
      have hle := List.length_filter_le (fun f : List Char => decide (f ≠ [])) [s]
      rw [pieces_of_forall hs]
      rw [List.length_singleton] at hle
      omega
  | cut s c t hs hc ih =>
      have hle := List.length_filter_le (fun f : List Char => decide (f ≠ [])) [s]
      rw [List.length_singleton] at hle
      rw [pieces_append_cons hc, pieces_of_forall hs, List.length_append, List.length_append,
        List.length_cons]
      omega

theorem pieces_congr {s : List Char} (h : ∀ c ∈ s, p c = q c) : pieces p s = pieces q s := by
  induction s using cut_induction p with
  | whole s hs =>
      rw [pieces_of_forall hs, pieces_of_forall fun c hc => (h c hc).symm.trans (hs c hc)]
  | cut s c t hs hc ih =>
      have hqc : q c = true := (h c (by simp)).symm.trans hc
      rw [pieces_append_cons hc, pieces_append_cons hqc, ih fun d hd => h d (by simp [hd]),
        pieces_of_forall hs,
        pieces_of_forall fun d hd => (h d (by simp [hd])).symm.trans (hs d hd)]

theorem flatMap_fieldsOf (p q : Char → Bool) (s : List Char) :
    (fieldsOf q s).flatMap (pieces p) = pieces (fun c => p c || q c) s := by
  induction s using cut_induction q with
  | whole s hs =>
      rw [fieldsOf_of_forall hs, List.flatMap_singleton]
      exact pieces_congr fun c hc => by rw [hs c hc, Bool.or_false]
  | cut s c t hs hc ih =>
      rw [fieldsOf_append_cons hc, List.flatMap_append, ih, fieldsOf_of_forall hs,
        List.flatMap_singleton, pieces_append_cons (by rw [hc, Bool.or_true])]
      congr 1
      exact pieces_congr fun d hd => by rw [hs d hd, Bool.or_false]

theorem pieces_map {f : Char → Char} (hkept : ∀ c, q c = false → f c = c)
    (hcut : ∀ c, q c = true → p (f c) = true) (s : List Char) :
    pieces p (s.map f) = pieces (fun c => p c || q c) s := by
  rw [← flatMap_fieldsOf]
  have hmap : ∀ s : List Char, (∀ c ∈ s, q c = false) → s.map f = s := by
    intro s hs
    calc s.map f = s.map id := List.map_congr_left fun c hc => hkept c (hs c hc)
      _ = s := List.map_id s
  induction s using cut_induction q with
  | whole s hs => rw [hmap s hs, fieldsOf_of_forall hs, List.flatMap_singleton]
  | cut s c t hs hc ih =>
      rw [List.map_append, List.map_cons, hmap s hs, pieces_append_cons (hcut c hc), ih,
        fieldsOf_append_cons hc, List.flatMap_append, fieldsOf_of_forall hs,
        List.flatMap_singleton]

theorem stripChars_split (q : Char → Bool) (s : List Char) :
    ∃ before behind, s = before ++ stripChars q s ++ behind ∧ (∀ c ∈ before, q c = true) ∧
      ∀ c ∈ behind, q c = true := by
  refine ⟨s.takeWhile q, ((s.dropWhile q).reverse.takeWhile q).reverse, ?_, ?_, ?_⟩
  · rw [stripChars, List.append_assoc, ← List.reverse_append, List.takeWhile_append_dropWhile,
      List.reverse_reverse, List.takeWhile_append_dropWhile]
  · exact fun c hc => List.mem_takeWhile_imp hc
  · exact fun c hc => List.mem_takeWhile_imp (List.mem_reverse.mp hc)

theorem pieces_stripChars (h : ∀ c, q c = true → p c = true) (s : List Char) :
    pieces p (stripChars q s) = pieces p s := by
  obtain ⟨before, behind, hs, hbefore, hbehind⟩ := stripChars_split q s
  have hsame : pieces p (before ++ stripChars q s ++ behind) = pieces p (stripChars q s) := by
    rw [pieces_append_right fun c hc => h c (hbehind c hc),
      pieces_append_of_forall fun c hc => h c (hbefore c hc)]
  rw [← hs] at hsame
  exact hsame.symm

theorem pieces_intercalate {sep : Char} (h : p sep = true) (parts : List (List Char)) :
    pieces p (List.intercalate [sep] parts) = parts.flatMap (pieces p) := by
  induction parts with
  | nil => rfl
  | cons s parts ih =>
      cases parts with
      | nil => simp
      | cons t parts =>
          rw [List.intercalate_cons_cons, pieces_append_gap (by simpa using h) (by simp), ih]
          rfl

theorem pieces_trim (h : ∀ c, isWhiteSpace c = true → p c = true) (s : String) :
    pieces p (trim s).toList = pieces p s.toList := by
  rw [trim, strip, String.toList_ofList, pieces_stripChars h]

end Concordance.Proofs.Pieces
