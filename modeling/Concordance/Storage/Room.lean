namespace Concordance

/-- Room for bytes whose number need not be known before. It decides in what portions they are asked
for, which shows when a file changes between two reads. -/
structure Room where
  used : Nat
  size : Nat
  most : Nat
  deriving DecidableEq

namespace Room

def unknown : Room := ⟨0, 0, 8192⟩

def ofSize (n : Nat) : Room := ⟨0, n, n⟩

def step : Nat := 32

def grow (r : Room) : Room :=
  if 0 < r.size ∧ r.used = r.size then { r with size := max (2 * r.size) (r.used + step) } else r

def portion (r : Room) : Nat := if r.size = 0 then step else min (r.size - r.used) r.most

/-- The room after `n` bytes have come. The first ones get as much as they need. When the greatest
portion came whole, twice as much is asked for from there on. -/
def add (n : Nat) (r : Room) : Room :=
  if r.size = 0 then { r with used := n, size := max n 8 }
  else
    { r with
      used := r.used + n
      most := if r.portion = r.most ∧ n = r.most then 2 * r.most else r.most }

theorem portion_grow_pos {r : Room} (hm : 0 < r.most) (h : r.used ≤ r.size) :
    0 < r.grow.portion := by
  unfold grow portion step
  split <;> split <;> simp_all
  all_goals omega

end Room

end Concordance
