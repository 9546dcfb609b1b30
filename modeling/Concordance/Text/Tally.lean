import Concordance.Text.WordSet

namespace Concordance.Text.Tally

open WordSet (ascending pairwise_ascending)

def push (w : String) : List (String × Nat) → List (String × Nat)
  | [] => [(w, 1)]
  | (x, n) :: rest => if w = x then (x, n + 1) :: rest else (w, 1) :: (x, n) :: rest

def runs (ws : List String) : List (String × Nat) := ws.foldr push []

def ofList (ws : List String) : List (String × Nat) := runs (ascending ws)

def count (w : String) (t : List (String × Nat)) : Nat := (t.lookup w).getD 0

theorem count_cons (w x : String) (n : Nat) (t : List (String × Nat)) :
    count w ((x, n) :: t) = if w = x then n else count w t := by
  by_cases h : w = x
  · simp [count, h]
  · simp [count, List.lookup_cons, h, beq_eq_false_iff_ne.2 h]

theorem head?_push (w : String) (t : List (String × Nat)) :
    (push w t).head?.map (·.1) = some w := by
  unfold push
  split
  · rfl
  · split <;> simp_all

theorem head?_runs (ws : List String) : (runs ws).head?.map (·.1) = ws.head? := by
  cases ws with
  | nil => rfl
  | cons w ws => exact head?_push w (runs ws)

theorem count_runs {ws : List String} (h : ws.Pairwise (· ≤ ·)) (w : String) :
    count w (runs ws) = ws.count w := by
  induction ws with
  | nil => rfl
  | cons x xs ih =>
    have hs := List.pairwise_cons.1 h
    have ih := ih hs.2
    have hh := head?_runs xs
    change count w (push x (runs xs)) = _
    rw [List.count_cons, ← ih]
    cases hr : runs xs with
    | nil =>
      rw [push, count_cons]
      by_cases hw : w = x <;> simp [count, hw, Ne.symm]
    | cons y rest =>
      obtain ⟨y, n⟩ := y
      rw [push, count_cons]
      split
      · subst x
        rw [count_cons]
        by_cases hw : w = y <;> simp [hw, Ne.symm]
      · rename_i hxy
        rw [count_cons, count_cons]
        by_cases hw : w = x
        · subst w
          have hx : xs.count x = 0 := by
            rw [hr] at hh
            obtain ⟨ys, hys⟩ := List.head?_eq_some_iff.1 hh.symm
            refine List.count_eq_zero.2 fun hm => hxy ?_
            have hle : y ≤ x := by
              rw [hys] at hm hs
              cases hm with
              | head => exact String.le_refl _
              | tail _ hm => exact (List.pairwise_cons.1 hs.2).1 x hm
            exact String.le_antisymm (hs.1 y (hys ▸ List.mem_cons_self)) hle
          rw [← ih, hr, count_cons] at hx
          simp [hx]
        · simp [hw, Ne.symm]

theorem count_ofList (w : String) (ws : List String) : count w (ofList ws) = ws.count w := by
  rw [ofList, count_runs (pairwise_ascending ws)]
  exact (List.mergeSort_perm ws _).count_eq w

end Concordance.Text.Tally
