namespace Concordance.Text.WordSet

def distinct (ws : List String) : List String :=
  ws.foldr (fun w set => if set.head? = some w then set else w :: set) []

theorem distinct_cons (w : String) (ws : List String) :
    distinct (w :: ws) = if (distinct ws).head? = some w then distinct ws else w :: distinct ws :=
  rfl

theorem mem_distinct {w : String} {ws : List String} : w ∈ distinct ws ↔ w ∈ ws := by
  induction ws with
  | nil => rfl
  | cons x xs ih =>
    rw [distinct_cons, List.mem_cons, ← ih]
    split
    · rename_i h
      exact ⟨.inr, fun hw => hw.elim (fun hw => hw ▸ List.mem_of_head? h) id⟩
    · exact List.mem_cons

theorem pairwise_distinct {ws : List String} (h : ws.Pairwise (· ≤ ·)) :
    (distinct ws).Pairwise (· < ·) := by
  induction ws with
  | nil => exact .nil
  | cons x xs ih =>
    have hx : ∀ y ∈ distinct xs, x ≤ y := fun y hy =>
      (List.pairwise_cons.1 h).1 y (mem_distinct.1 hy)
    have hs := ih (List.pairwise_cons.1 h).2
    rw [distinct_cons]
    cases hd : distinct xs with
    | nil => simp
    | cons y ys =>
      rw [hd] at hx hs
      split
      · exact hs
      · rename_i hne
        have hxy : x < y := Std.lt_of_le_of_ne (hx y (by simp)) (by simpa using Ne.symm hne)
        refine List.pairwise_cons.2 ⟨fun z hz => ?_, hs⟩
        cases hz with
        | head => exact hxy
        | tail _ hz => exact String.lt_trans hxy ((List.pairwise_cons.1 hs).1 z hz)

def ascending (ws : List String) : List String := ws.mergeSort (· ≤ ·)

theorem pairwise_ascending (ws : List String) : (ascending ws).Pairwise (· ≤ ·) := by
  have h := @List.pairwise_mergeSort String (fun a b => decide (a ≤ b))
    (fun a b c => by simpa using String.le_trans) (fun a b => by simpa using String.le_total a b) ws
  simpa [ascending] using h

def ofList (ws : List String) : List String := distinct (ascending ws)

theorem mem_ofList {w : String} {ws : List String} : w ∈ ofList ws ↔ w ∈ ws := by
  simp [ofList, ascending, mem_distinct]

theorem pairwise_ofList (ws : List String) : (ofList ws).Pairwise (· < ·) :=
  pairwise_distinct (pairwise_ascending ws)

end Concordance.Text.WordSet
