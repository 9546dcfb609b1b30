namespace Concordance.Text

inductive SearchTree (α : Type)
  | leaf
  | node (left : SearchTree α) (root : α) (right : SearchTree α)

namespace SearchTree

variable {α : Type}

def toList : SearchTree α → List α
  | leaf => []
  | node l a r => l.toList ++ a :: r.toList

def fill : Nat → List α → SearchTree α × List α
  | 0, as => (leaf, as)
  | d + 1, as =>
      match fill d as with
      | (l, []) => (l, [])
      | (l, a :: rest) =>
          let right := fill d rest
          (node l a right.1, right.2)

def ofList (as : List α) : SearchTree α := (fill (as.length.log2 + 1) as).1

theorem toList_fill (d : Nat) (as : List α) : (fill d as).1.toList ++ (fill d as).2 = as := by
  induction d generalizing as with
  | zero => rfl
  | succ d ih =>
      have h := ih as
      rw [fill]
      split
      · next l hl => simpa [hl] using h
      · next l a rest hl => simpa [hl, toList, ih rest] using h

theorem fill_rest (d : Nat) (as : List α) : (fill d as).2 = as.drop ((1 <<< d) - 1) := by
  induction d generalizing as with
  | zero => rfl
  | succ d ih =>
      have hd : 0 < 1 <<< d := by rw [Nat.one_shiftLeft]; exact Nat.two_pow_pos d
      have h := ih as
      rw [fill]
      split
      · next l hl =>
          rw [hl] at h
          have := congrArg List.length h
          simp only [List.length_nil, List.length_drop] at this
          exact (List.drop_eq_nil_of_le (by rw [Nat.shiftLeft_succ]; omega)).symm
      · next l a rest hl =>
          rw [hl] at h
          have hrest : rest = as.drop (1 <<< d) := by
            have := congrArg (List.drop 1) h
            simpa [List.drop_drop, Nat.sub_add_cancel hd] using this
          simp only [ih, hrest, List.drop_drop]
          congr 1
          rw [Nat.shiftLeft_succ]
          omega

theorem toList_ofList (as : List α) : (ofList as).toList = as := by
  have h := toList_fill (as.length.log2 + 1) as
  have hlen := Nat.lt_log2_self (n := as.length)
  rwa [fill_rest, Nat.one_shiftLeft, List.drop_eq_nil_of_le (by omega), List.append_nil] at h

/-- The value that `side` calls equal to what is looked for. It says of every value whether the
one looked for comes before it or after it. -/
def find? (side : α → Ordering) : SearchTree α → Option α
  | leaf => none
  | node l a r =>
      match side a with
      | .lt => l.find? side
      | .eq => some a
      | .gt => r.find? side

theorem find?_eq (side : α → Ordering) (t : SearchTree α)
    (h : t.toList.Pairwise fun a b => side a ≠ .gt → side b = .lt) :
    t.find? side = t.toList.find? (fun a => side a == .eq) := by
  induction t with
  | leaf => rfl
  | node l a r ihl ihr =>
      rw [toList, List.pairwise_append, List.pairwise_cons] at h
      obtain ⟨hl, ⟨ha, hr⟩, hlr⟩ := h
      have none_of (as : List α) (o : Ordering) (ho : o ≠ .eq) (has : ∀ b ∈ as, side b = o) :
          as.find? (fun b => side b == .eq) = none := by
        simp only [List.find?_eq_none, beq_iff_eq]
        intro b hb
        rw [has b hb]
        exact ho
      have before (hs : side a ≠ .lt) : ∀ b ∈ l.toList, side b = .gt := by
        intro b hb
        exact Classical.byContradiction fun hn => hs (hlr b hb a (by simp) hn)
      rw [find?, toList, List.find?_append, List.find?_cons]
      rcases hs : side a with _ | _ | _
      · have := none_of r.toList .lt (by decide) fun b hb => ha b hb (by simp [hs])
        simp [ihl hl, this]
      · simp [none_of l.toList .gt (by decide) (before (by simp [hs]))]
      · simp [ihr hr, none_of l.toList .gt (by decide) (before (by simp [hs]))]

end SearchTree

end Concordance.Text
