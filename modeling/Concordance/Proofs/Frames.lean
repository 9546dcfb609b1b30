import Mathlib.Data.Set.Insert
import Concordance.Proofs.FileActions

namespace Concordance.Proofs.Frames

open Places FileActions

def fileCount (s : Storage) : Nat :=
  match s.backend with
  | .memory _ => 0
  | .directory fs _ => fs.contents.size

/-- From one storage to another only what lies at the given places changes, and the first `n` files
keep their contents. -/
structure Changes (n : Nat) (P : Set Location) (s t : Storage) : Prop where
  plan : t.plan = s.plan
  places : ∀ name, place? t name = place? s name
  files : ∀ loc, loc ∉ P → fileAt t loc = fileAt s loc
  directories : ∀ loc, IsDirectoryAt t loc ↔ IsDirectoryAt s loc
  grown : fileCount s ≤ fileCount t
  kept : ∀ k < n, t.content k = s.content k

section

variable {n : Nat} {P Q : Set Location} {s t u : Storage}

theorem changes_of_backend (hb : t.backend = s.backend) (hp : t.plan = s.plan) :
    Changes n P s t := by
  refine ⟨hp, fun name => ?_, fun loc _ => ?_, fun loc => ?_, ?_, fun k _ => ?_⟩
  · rw [place?, place?, hb]
  · rw [fileAt, fileAt, hb]
  · rw [IsDirectoryAt, IsDirectoryAt, hb]
  · rw [fileCount, fileCount, hb]
  · rw [Storage.content, Storage.content, hb]

theorem Changes.refl (s : Storage) : Changes n P s s := changes_of_backend rfl rfl

theorem Changes.trans (h : Changes n P s t) (h' : Changes n P t u) : Changes n P s u where
  plan := h'.plan.trans h.plan
  places name := (h'.places name).trans (h.places name)
  files loc hloc := (h'.files loc hloc).trans (h.files loc hloc)
  directories loc := (h'.directories loc).trans (h.directories loc)
  grown := h.grown.trans h'.grown
  kept k hk := (h'.kept k hk).trans (h.kept k hk)

/-- Places count as changed only if what lies at them has changed. -/
theorem Changes.shrink (h : Changes n P s t)
    (hq : ∀ loc, loc ∈ P → loc ∉ Q → fileAt t loc = fileAt s loc) : Changes n Q s t where
  plan := h.plan
  places := h.places
  files loc hloc := by
    by_cases hp : loc ∈ P
    · exact hq loc hp hloc
    · exact h.files loc hp
  directories := h.directories
  grown := h.grown
  kept := h.kept

theorem Changes.mono (h : Changes n P s t) (hpq : P ⊆ Q) : Changes n Q s t :=
  h.shrink fun _ hp hq => absurd (hpq hp) hq

/-- The files are in memory, and neither the given calls nor any write are refused. -/
structure Reliable (K : Set (StorageCall × String)) (s : Storage) : Prop where
  memory : ∃ files, s.backend = .memory files
  calls : ∀ clock call name, (call, name) ∈ K → s.plan.refuses clock call name = false
  writes : ∀ clock name k, s.plan.refusesWrite clock name k = false

abbrev Faultless (s : Storage) : Prop := Reliable Set.univ s

theorem faultless_ofBackend (files : Files) : Faultless (.ofBackend (.memory files)) :=
  ⟨⟨files, rfl⟩, fun _ _ _ _ => rfl, fun _ _ _ => rfl⟩

theorem memory_iff (s : Storage) : (∃ files, s.backend = .memory files) ↔ ¬ IsDirectoryAt s [] := by
  rw [IsDirectoryAt]
  cases hb : s.backend with
  | memory files => simp
  | directory fs d => simp [FileSystem.node?]

variable {K L : Set (StorageCall × String)}

theorem reliable_iff (hc : Changes n P s t) : Reliable K t ↔ Reliable K s := by
  have hmemory : (∃ files, t.backend = .memory files) ↔ ∃ files, s.backend = .memory files := by
    rw [memory_iff, memory_iff, hc.directories]
  constructor
  · exact fun h => ⟨hmemory.mp h.memory, hc.plan ▸ h.calls, hc.plan ▸ h.writes⟩
  · exact fun h => ⟨hmemory.mpr h.memory, hc.plan.symm ▸ h.calls, hc.plan.symm ▸ h.writes⟩

theorem Reliable.mono (h : Reliable K s) (hl : L ⊆ K) : Reliable L s :=
  ⟨h.memory, fun clock call name hmem => h.calls clock call name (hl hmem), h.writes⟩

theorem Reliable.not_directory {fs : FileSystem} {d : DirectorySettings} (h : Reliable K s) :
    s.backend ≠ .directory fs d := by
  obtain ⟨files, hb⟩ := h.memory
  rw [hb]
  simp

theorem changes_memory {files files' : Files} (hs : s.backend = .memory files)
    (ht : t.backend = .memory files') (hp : t.plan = s.plan)
    (hf : ∀ name, [name] ∉ P → files'[name]? = files[name]?) : Changes n P s t := by
  refine ⟨hp, fun name => ?_, fun loc hloc => ?_, fun loc => ?_, ?_, fun k _ => ?_⟩
  · rw [place?, place?, hs, ht]
  · rw [fileAt, fileAt, hs, ht]
    cases loc with
    | nil => rfl
    | cons name rest =>
        cases rest with
        | nil => exact congrArg (Option.map Packed.toBytes) (hf name hloc)
        | cons _ _ => rfl
  · rw [IsDirectoryAt, IsDirectoryAt, hs, ht]
  · rw [fileCount, fileCount, hs, ht]
  · rw [Storage.content, Storage.content, hs, ht]

theorem changes_directory {fs fs' : FileSystem} {d : DirectorySettings}
    (hs : s.backend = .directory fs d) (ht : t.backend = .directory fs' d) (hp : t.plan = s.plan)
    (hw : SameWays fs fs') (hf : ∀ loc, loc ∉ P → heldIn fs' loc = heldIn fs loc)
    (hg : fs.contents.size ≤ fs'.contents.size) (hk : ∀ k < n, fs'.content k = fs.content k) :
    Changes n P s t := by
  refine ⟨hp, fun name => ?_, fun loc hloc => ?_, fun loc => ?_, ?_, fun k hk' => ?_⟩
  · rw [place?, place?, hs, ht]
    exact placeIn_congr hw
  · rw [fileAt, fileAt, hs, ht]
    exact hf loc hloc
  · rw [IsDirectoryAt, IsDirectoryAt, hs, ht]
    exact hw.directory_iff loc
  · rw [fileCount, fileCount, hs, ht]
    exact hg
  · rw [Storage.content, Storage.content, hs, ht]
    exact hk k hk'

end

end Concordance.Proofs.Frames
