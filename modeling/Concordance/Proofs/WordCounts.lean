import Mathlib.Algebra.BigOperators.Group.Finset.Basic
import Mathlib.Algebra.BigOperators.Group.Finset.Piecewise
import Mathlib.Algebra.GroupWithZero.Nat
import Mathlib.Algebra.Order.BigOperators.Group.List
import Concordance.Analysis.Analyzer
import Concordance.Text.Tally

namespace Concordance.Proofs.WordCounts

open Analysis Pattern Text

theorem length_hitsFrom_le (p : Pattern) (n : Nat) (fresh : Bool) (s : Place) :
    (p.hitsFrom n fresh s).length ≤ n := by
  induction n generalizing fresh s with
  | zero => exact Nat.le_refl 0
  | succ n ih =>
      rw [hitsFrom]
      split
      · exact Nat.zero_le _
      · split
        · split
          · exact Nat.zero_le _
          · split
            · exact Nat.zero_le _
            · exact Nat.succ_le_succ (ih _ _)
        · exact Nat.succ_le_succ (ih _ _)

theorem length_gapsFrom_le (hs : List Hit) (s : Place) :
    (Tokenizer.gapsFrom s hs).length ≤ hs.length + 1 := by
  induction hs generalizing s with
  | nil =>
      rw [Tokenizer.gapsFrom]
      split <;> simp
  | cons h hs ih =>
      have hle := ih h.stop
      rw [Tokenizer.gapsFrom, List.length_cons]
      split
      · rw [List.length_cons]
        omega
      · omega

theorem length_tokenize_le (text : String) :
    (Tokenizer.standard.tokenize text).length ≤ text.length + 2 := by
  have hhits : (Tokenizer.standard.find text).length ≤ text.toList.length + 1 :=
    length_hitsFrom_le _ _ _ _
  have hgaps := length_gapsFrom_le (Tokenizer.standard.find text) (.begin text)
  have hgap : Tokenizer.standard.gaps = true := rfl
  rw [Tokenizer.tokenize, hgap, List.length_map, List.length_zipIdx, if_pos rfl]
  rw [String.length_toList] at hhits
  omega

theorem length_apply_le (f : Filter) (ts : List Token) : (f.apply ts).length ≤ ts.length := by
  cases f with
  | strip => exact Nat.le_of_eq (List.length_map _)
  | lowercase => exact Nat.le_of_eq (List.length_map _)
  | stop words => exact List.length_filter_le _ _

theorem length_analyze_le (a : Analyzer) (text : String) :
    (a.analyze text).length ≤ text.length + 2 := by
  rw [Analyzer.analyze]
  have hfold (fs : List Filter) (ts : List Token) :
      (fs.foldl (fun ts f => f.apply ts) ts).length ≤ ts.length := by
    induction fs generalizing ts with
    | nil => exact Nat.le_refl _
    | cons f fs ih => exact (ih (f.apply ts)).trans (length_apply_le f ts)
  exact (hfold _ _).trans (length_tokenize_le text)

theorem length_words_le (a : Analyzer) (text : String) :
    (a.words text).length ≤ text.length + 2 := by
  rw [Analyzer.words, List.length_map]
  exact (List.length_filter_le _ _).trans (length_analyze_le a text)

theorem ofString_eq_flatMap (s : String) :
    Bytes.ofString s = s.toList.flatMap String.utf8EncodeChar := by
  have h : s.toUTF8 = (s.toList.flatMap String.utf8EncodeChar).toByteArray :=
    String.utf8Encode_toList.symm
  rw [Bytes.ofString, h]
  simp

theorem length_le_ofString (s : String) : s.length ≤ (Bytes.ofString s).length := by
  rw [ofString_eq_flatMap, ← String.length_toList]
  induction s.toList with
  | nil => exact Nat.le_refl 0
  | cons c cs ih =>
      have hc := c.utf8Size_pos
      rw [List.flatMap_cons, List.length_append, String.length_utf8EncodeChar, List.length_cons]
      omega

theorem sum_count_le (words : Finset String) (l : List String) :
    ∑ w ∈ words, l.count w ≤ l.length := by
  induction l with
  | nil => simp
  | cons x l ih =>
      have hsum : ∑ w ∈ words, (x :: l).count w =
          ∑ w ∈ words, l.count w + if x ∈ words then 1 else 0 := by
        simp only [List.count_cons, Finset.sum_add_distrib, beq_iff_eq, Finset.sum_ite_eq]
      rw [hsum, List.length_cons]
      split <;> omega

theorem mem_keys_push {w x : String} {t : List (String × Nat)} :
    x ∈ (Tally.push w t).map (·.1) ↔ x = w ∨ x ∈ t.map (·.1) := by
  unfold Tally.push
  split
  · simp
  · split
    · rename_i h
      simp [h]
    · simp

theorem mem_keys_ofList {x : String} {ws : List String} :
    x ∈ (Tally.ofList ws).map (·.1) ↔ x ∈ ws := by
  have hruns (ws : List String) : x ∈ (Tally.runs ws).map (·.1) ↔ x ∈ ws := by
    induction ws with
    | nil => rfl
    | cons w ws ih =>
        rw [List.mem_cons, ← ih]
        exact mem_keys_push
  rw [Tally.ofList, hruns]
  exact (List.mergeSort_perm ws _).mem_iff

theorem nodup_eraseDups (l : List String) : l.eraseDups.Nodup := by
  induction hn : l.length using Nat.strongRecOn generalizing l with
  | _ n ih =>
      cases l with
      | nil => simp
      | cons x l =>
          rw [List.eraseDups_cons, List.nodup_cons]
          have hlen := List.length_filter_le (fun y => !y == x) l
          refine ⟨?_, ih _ (by rw [← hn, List.length_cons]; omega) _ rfl⟩
          rw [List.mem_eraseDups]
          simp

theorem sum_eraseDups (f : String → Nat) (l : List String) :
    (l.eraseDups.map f).sum = ∑ w ∈ l.toFinset, f w := by
  have hset : l.eraseDups.toFinset = l.toFinset := by
    ext w
    simp
  rw [← hset, List.sum_toFinset f (nodup_eraseDups l)]

end Concordance.Proofs.WordCounts
