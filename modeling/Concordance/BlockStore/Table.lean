import Concordance.BlockStore.Layout

namespace Concordance.BlockStore.Table

/-- The first `k` slots of a table of `n` slots in the order of a search that begins at `start`. -/
def walk (n start k : Nat) : List Nat := (List.range k).map fun j => (start + j) % n

def isEmptyAt (table : Array Slot) (i : Nat) : Bool :=
  match table[i]? with
  | some s => s.position = 0
  | none => false

/-- The first empty slot among `k` slots from a place on, where the first slot follows the last. -/
def probe (table : Array Slot) (i : Nat) : Nat → Option Nat
  | 0 => none
  | k + 1 => if isEmptyAt table i then some i else probe table ((i + 1) % table.size) k

theorem probe_eq_find? (table : Array Slot) (start k : Nat) :
    probe table (start % table.size) k = (walk table.size start k).find? (isEmptyAt table) := by
  induction k generalizing start with
  | zero => rfl
  | succ k ih =>
    have h : walk table.size start (k + 1) = start % table.size :: walk table.size (start + 1) k := by
      simp [walk, List.range_succ_eq_map, Function.comp_def, Nat.add_comm, Nat.add_left_comm]
    rw [probe, h, List.find?_cons]
    split <;> rename_i he
    · simp [he]
    · simp only [Bool.not_eq_true] at he
      rw [he, Nat.mod_add_mod, ih]

def freeSlot? (table : Array Slot) (hash : UInt32) : Option Nat :=
  if UInt32.ofNat table.size = 0 then none
  else probe table (firstSlot hash table.size) table.size

def place (table : Array Slot) (s : Slot) : Array Slot :=
  match freeSlot? table s.hash with
  | some i => table.setIfInBounds i s
  | none => table

def build (entries : List Slot) : Array Slot :=
  entries.foldl place (Array.replicate (2 * entries.length) Slot.empty)

theorem size_place (table : Array Slot) (s : Slot) : (place table s).size = table.size := by
  rw [place]
  split <;> simp

theorem size_build (entries : List Slot) : (build entries).size = 2 * entries.length := by
  have (es : List Slot) (t : Array Slot) : (es.foldl place t).size = t.size := by
    induction es generalizing t with
    | nil => rfl
    | cons e es ih => rw [List.foldl_cons, ih, size_place]
  rw [build, this, Array.size_replicate]

end Concordance.BlockStore.Table
