import Concordance.Text.SearchTree

namespace Concordance.Text

def sideOf (n : Nat) (r : Nat × Nat) : Ordering :=
  if n < r.1 then .lt else if n ≤ r.2 then .eq else .gt

theorem sideOf_eq_eq_iff (n : Nat) (r : Nat × Nat) : sideOf n r = .eq ↔ r.1 ≤ n ∧ n ≤ r.2 := by
  rw [sideOf]
  split
  · simp; omega
  · split <;> (simp; omega)

def isAscending : List (Nat × Nat) → Bool
  | [] => true
  | [r] => r.1 ≤ r.2
  | r :: s :: rest => r.1 ≤ r.2 && r.2 < s.1 && isAscending (s :: rest)

theorem isAscending_head (r : Nat × Nat) (rest : List (Nat × Nat))
    (h : isAscending (r :: rest) = true) :
    r.1 ≤ r.2 ∧ (∀ s ∈ rest, r.2 < s.1) ∧ isAscending rest = true := by
  induction rest generalizing r with
  | nil => simpa [isAscending] using h
  | cons s rest ih =>
      simp only [isAscending, Bool.and_eq_true, decide_eq_true_eq] at h
      obtain ⟨hs, hrest, _⟩ := ih s h.2
      refine ⟨h.1.1, ?_, h.2⟩
      intro t ht
      rcases List.mem_cons.1 ht with rfl | ht
      · exact h.1.2
      · have := hrest t ht
        omega

theorem pairwise_sideOf (n : Nat) (rs : List (Nat × Nat)) (h : isAscending rs = true) :
    rs.Pairwise fun r s => sideOf n r ≠ .gt → sideOf n s = .lt := by
  induction rs with
  | nil => exact .nil
  | cons r rest ih =>
      obtain ⟨hr, hrest, ha⟩ := isAscending_head r rest h
      refine .cons ?_ (ih ha)
      intro s hs hn
      have := hrest s hs
      simp only [sideOf] at hn ⊢
      split at hn
      · rw [if_pos (by omega)]
      · split at hn
        · rw [if_pos (by omega)]
        · exact absurd rfl hn

/-- A set of characters, as the first and last code points of its ranges in ascending order. -/
structure CharClass where
  ranges : List (Nat × Nat)
  ascending : isAscending ranges = true := by decide +kernel
  tree : SearchTree (Nat × Nat) := .ofList ranges
  toList_tree : tree.toList = ranges := by exact SearchTree.toList_ofList _

def CharClass.has (cls : CharClass) (c : Char) : Bool :=
  (cls.tree.find? (sideOf c.toNat)).isSome

theorem CharClass.has_eq_true_iff (cls : CharClass) (c : Char) :
    cls.has c = true ↔ ∃ r ∈ cls.ranges, r.1 ≤ c.toNat ∧ c.toNat ≤ r.2 := by
  have h := pairwise_sideOf c.toNat cls.ranges cls.ascending
  rw [← cls.toList_tree] at h
  rw [has, SearchTree.find?_eq _ _ h, cls.toList_tree, List.find?_isSome]
  simp only [beq_iff_eq, sideOf_eq_eq_iff]

end Concordance.Text
