import Concordance.Error

namespace Concordance

/-- Which calls of a storage fail. A call is told by its number, and a write also by how many
writes to the same output came before it. -/
structure FaultPlan where
  refuses : Nat → StorageCall → String → Bool
  refusesWrite : Nat → String → Nat → Bool

namespace FaultPlan

def none : FaultPlan := ⟨fun _ _ _ => false, fun _ _ _ => false⟩

/-- The calls of the given kinds on the given names, and all writes to the given names. -/
def ofNames (calls : List (StorageCall × String)) (writes : List String) : FaultPlan :=
  ⟨fun _ call name => calls.contains (call, name), fun _ name _ => writes.contains name⟩

end FaultPlan

inductive Warning
  | temporaryLeft (name : String) (error : Error)
  | unpublishedLeft (name : String) (error : Error)
  | unfinishedStoreLeft (path : String) (fault : SystemFault)
  deriving DecidableEq

def Warning.message : Warning → String
  | .temporaryLeft name e => s!"failed to remove temporary file {name}: {e.message}"
  | .unpublishedLeft name e => s!"failed to discard unpublished index {name}: {e.message}"
  | .unfinishedStoreLeft path f => s!"failed to remove temporary store {path}: {f.message}"

end Concordance
