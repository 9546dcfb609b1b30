import Concordance.Proofs.FileActions

namespace Concordance.Proofs.Directories

open FileSystem Filing FileActions Outcomes Places

structure Extends (fs fs' : FileSystem) : Prop where
  workingDirectory : fs'.workingDirectory = fs.workingDirectory
  node? : ∀ {loc : Location} {node : Node}, fs.node? loc = some node → fs'.node? loc = some node

def prefixes (path : String) : Set String :=
  {p | p = path ∨ ∃ ps, ps <:+ Path.parts path ∧ p = Path.ofParts (Path.isAbsolute path) ps}

/-- All that the second file system has besides the first are directories, and to each of them leads
the path or one that its first names make. -/
structure Grown (path : String) (fs fs' : FileSystem) : Prop where
  workingDirectory : fs'.workingDirectory = fs.workingDirectory
  contents : fs'.contents = fs.contents
  node? : ∀ loc, fs'.node? loc = fs.node? loc ∨
    (fs.node? loc = none ∧ fs'.node? loc = some .directory ∧
      ∃ p ∈ prefixes path, fs'.find p = .ok (loc, .directory))

section

variable {fs fs' : FileSystem} {path p : String} {loc dir : Location}

theorem Extends.follow (h : Extends fs fs') {steps : List PathStep}
    (hf : fs.follow loc steps = .ok dir) : fs'.follow loc steps = .ok dir := by
  induction steps generalizing loc with
  | nil => exact hf
  | cons step steps ih =>
      cases step with
      | here =>
          rw [FileSystem.follow] at hf ⊢
          exact ih hf
      | up =>
          rw [FileSystem.follow] at hf ⊢
          exact ih hf
      | name n =>
          rw [follow_name_eq_ok_iff] at hf ⊢
          exact ⟨hf.1, h.node? hf.2.1, ih hf.2.2⟩

theorem Extends.resolve (h : Extends fs fs') {x : Location × PathGoal}
    (hr : fs.resolve path = .ok x) : fs'.resolve path = .ok x := by
  rw [resolve_eq_ok] at hr ⊢
  obtain ⟨p, hp, hway, hgoal⟩ := hr
  rw [h.workingDirectory]
  exact ⟨p, hp, h.follow hway, hgoal⟩

theorem Extends.child? (h : Extends fs fs') {n : String} {node : Node}
    (hc : fs.child? dir n = .ok (some node)) : fs'.child? dir n = .ok (some node) := by
  rw [FileSystem.child?] at hc ⊢
  split at hc
  case isTrue => cases hc
  case isFalse hn =>
    rw [if_neg hn]
    exact congrArg Except.ok (h.node? (Except.ok.inj hc))

theorem Extends.find (h : Extends fs fs') {x : Location × Node} (hf : fs.find path = .ok x) :
    fs'.find path = .ok x := by
  rw [FileSystem.find] at hf ⊢
  obtain ⟨⟨dir, goal⟩, hr, hf⟩ := bind_eq_ok hf
  rw [h.resolve hr, ok_bind]
  cases goal with
  | here => exact hf
  | up => exact hf
  | name n slashed =>
      obtain ⟨node, hc, hf⟩ := bind_eq_ok hf
      cases node with
      | none => cases hf
      | some node =>
          simp only [h.child? hc, ok_bind]
          exact hf

theorem Grown.extends (h : Grown path fs fs') : Extends fs fs' := by
  refine ⟨h.workingDirectory, ?_⟩
  intro loc node hnode
  rcases h.node? loc with heq | ⟨hnone, -, -⟩
  · rw [heq, hnode]
  · rw [hnode] at hnone
    cases hnone

instance : IsPreorder FileSystem (Grown path) where
  refl _ := ⟨rfl, rfl, fun _ => .inl rfl⟩
  trans fs₁ fs₂ fs₃ h h' := by
    refine ⟨h'.workingDirectory.trans h.workingDirectory, h'.contents.trans h.contents, ?_⟩
    intro loc
    rcases h'.node? loc with heq' | ⟨hnone', hdir', p, hp, hfind'⟩
    · rcases h.node? loc with heq | ⟨hnone, hdir, p, hp, hfind⟩
      · exact .inl (heq'.trans heq)
      · exact .inr ⟨hnone, heq'.trans hdir, p, hp, h'.extends.find hfind⟩
    · rcases h.node? loc with heq | ⟨-, hdir, -⟩
      · exact .inr ⟨heq.symm.trans hnone', hdir', p, hp, hfind'⟩
      · rw [hdir] at hnone'
        cases hnone'

theorem node?_addDirectory (hloc : loc ≠ []) (l : Location) : (fs.addDirectory loc).node? l =
    if l = loc then some .directory else fs.node? l := by
  rw [FileSystem.node?, FileSystem.node?, addDirectory, getElem?_insert]
  by_cases hl : l = loc
  · rw [if_neg (hl ▸ hloc), if_pos hl, if_pos hl]
  · rw [if_neg hl, if_neg hl]

theorem makeDirectory_cases (path : String) (fs : FileSystem) : Fails (makeDirectory path) fs ∨
    ∃ n dir slashed, fs.resolve path = .ok (dir, .name n slashed) ∧ n.utf8ByteSize ≤ 255 ∧
      fs.node? (n :: dir) = none ∧
      makeDirectory path fs = .ok () (fs.addDirectory (n :: dir)) := by
  unfold makeDirectory
  cases hr : fs.resolve path with
  | error e => exact .inl (fails_query hr _)
  | ok found =>
      obtain ⟨dir, goal⟩ := found
      rw [Fails, bind_of_ok (query_of_ok (f := (resolve · path)) hr)]
      cases goal with
      | here => exact .inl (fails_throw _)
      | up => exact .inl (fails_throw _)
      | name n slashed =>
          dsimp only
          by_cases hn : n.utf8ByteSize ≤ 255
          · have hchild := child?_of_le fs dir hn
            rw [bind_of_ok (query_of_ok (f := (FileSystem.child? · dir n)) hchild)]
            cases hnode : fs.node? (n :: dir) with
            | none => exact .inr ⟨n, dir, slashed, rfl, hn, hnode, rfl⟩
            | some node => exact .inl (fails_throw _)
          · exact .inl (fails_query (by rw [FileSystem.child?, if_pos (Nat.lt_of_not_le hn)]) _)

theorem grown_addDirectory {n : String} {slashed : Bool} (hp : p ∈ prefixes path)
    (hr : fs.resolve p = .ok (dir, .name n slashed)) (hn : n.utf8ByteSize ≤ 255)
    (hnone : fs.node? (n :: dir) = none) : Grown path fs (fs.addDirectory (n :: dir)) := by
  have hnew : (fs.addDirectory (n :: dir)).node? (n :: dir) = some .directory := by
    rw [node?_addDirectory (List.cons_ne_nil n dir), if_pos rfl]
  have hold : ∀ l, l ≠ n :: dir → (fs.addDirectory (n :: dir)).node? l = fs.node? l := by
    intro l hl
    rw [node?_addDirectory (List.cons_ne_nil n dir), if_neg hl]
  have hextends : Extends fs (fs.addDirectory (n :: dir)) := by
    refine ⟨rfl, ?_⟩
    intro l node hnode
    have hne : l ≠ n :: dir := by
      rintro rfl
      rw [hnone] at hnode
      cases hnode
    rw [hold l hne, hnode]
  refine ⟨rfl, rfl, ?_⟩
  intro l
  by_cases hl : l = n :: dir
  · subst hl
    refine .inr ⟨hnone, hnew, p, hp, ?_⟩
    simp only [FileSystem.find, hextends.resolve hr, ok_bind, child?_of_le _ _ hn, hnew]
    rfl
  · exact .inl (hold l hl)

theorem makeDirectory_grows (hp : p ∈ prefixes path) : Keeps (Grown path) (makeDirectory p) := by
  intro fs
  rcases makeDirectory_cases p fs with ⟨e, hfail⟩ | ⟨n, dir, slashed, hr, hn, hnone, hok⟩
  · rw [hfail]
    exact refl_of (Grown path) fs
  · rw [hok]
    exact grown_addDirectory hp hr hn hnone

theorem allowPresent_grows {m : Filing Unit} (h : Keeps (Grown path) m) :
    Keeps (Grown path) (allowPresent p m) := by
  refine h.tryCatch fun e => keeps_get.bind fun fs => ?_
  split
  · exact keeps_pure _
  · exact keeps_throw e

/-- The induction is on the names of the parents, whose path is made before the directory itself. -/
theorem makeWithParents_grows {parents : List String} (hp : p ∈ prefixes path)
    (hparents : parents <:+ Path.parts path) :
    Keeps (Grown path) (makeWithParents (Path.isAbsolute path) p parents) := by
  induction parents generalizing p with
  | nil =>
      rw [makeWithParents]
      split
      · exact keeps_pure _
      · exact allowPresent_grows (makeDirectory_grows hp)
  | cons n parents ih =>
      have habove : parents <:+ Path.parts path := (List.suffix_cons n parents).trans hparents
      rw [makeWithParents]
      refine (makeDirectory_grows hp).tryCatch fun e => ?_
      split
      · exact (ih (.inr ⟨parents, habove, rfl⟩) habove).bind fun _ =>
          allowPresent_grows (makeDirectory_grows hp)
      · exact allowPresent_grows (keeps_throw e)

theorem makeDirectories_grows (path : String) : Keeps (Grown path) (makeDirectories path) :=
  makeWithParents_grows (.inl rfl) (List.suffix_refl _)

end

end Concordance.Proofs.Directories
