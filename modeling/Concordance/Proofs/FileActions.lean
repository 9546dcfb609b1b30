import Concordance.Proofs.Places

namespace Concordance.Proofs.FileActions

open FileSystem Filing Outcomes Places

section

variable {α β : Type} [Ord α] [Std.TransOrd α] [Std.LawfulEqOrd α] [DecidableEq α]

theorem getElem?_insert (m : Std.ExtTreeMap α β) (a k : α) (b : β) :
    (m.insert a b)[k]? = if k = a then some b else m[k]? := by
  rw [Std.ExtTreeMap.getElem?_insert]
  simp only [Std.LawfulEqCmp.compare_eq_iff_eq]
  simp only [eq_comm (a := a)]

theorem getElem?_erase (m : Std.ExtTreeMap α β) (a k : α) :
    (m.erase a)[k]? = if k = a then none else m[k]? := by
  rw [Std.ExtTreeMap.getElem?_erase]
  simp only [Std.LawfulEqCmp.compare_eq_iff_eq]
  simp only [eq_comm (a := a)]

end

variable {fs : FileSystem} {path : String} {loc : Location}

theorem node?_addFile (hloc : loc ≠ []) (l : Location) : (fs.addFile loc).2.node? l =
    if l = loc then some (.file fs.contents.size) else fs.node? l := by
  rw [node?, node?, addFile, getElem?_insert]
  by_cases hl : l = loc
  · rw [if_neg (hl ▸ hloc), if_pos hl, if_pos hl]
  · rw [if_neg hl, if_neg hl]

theorem content_addFile (k : Nat) : (fs.addFile loc).2.content k = fs.content k := by
  simp only [content, addFile, Array.getD_eq_getD_getElem?, Array.getElem?_push]
  split
  · rename_i hk
    rw [hk, Array.getElem?_eq_none (Nat.le_refl _)]
    rfl
  · rfl

theorem content_setContent (k l : Nat) (p : Packed) : (fs.setContent k p).content l =
    if k = l ∧ l < fs.contents.size then p else fs.content l := by
  simp only [content, setContent, Array.getD_eq_getD_getElem?, Array.getElem?_setIfInBounds]
  by_cases hkl : k = l
  · by_cases hl : l < fs.contents.size
    · rw [if_pos hkl, if_pos (hkl ▸ hl), if_pos ⟨hkl, hl⟩]
      rfl
    · rw [if_pos hkl, if_neg (hkl ▸ hl), if_neg fun h => hl h.2,
        Array.getElem?_eq_none (Nat.le_of_not_lt hl)]
  · rw [if_neg hkl, if_neg fun h => hkl h.1]

theorem node?_eraseNode (hloc : loc ≠ []) (l : Location) :
    (fs.eraseNode loc).node? l = if l = loc then none else fs.node? l := by
  rw [node?, node?, eraseNode, getElem?_erase]
  by_cases hl : l = loc
  · rw [if_neg (hl ▸ hloc), if_pos hl, if_pos hl]
  · rw [if_neg hl, if_neg hl]

theorem moveNode_of_file {source target : Location} {k : Nat}
    (h : fs.entries[source]? = some (.file k)) :
    (fs.moveNode source target).entries = (fs.entries.erase source).insert target (.file k) ∧
      (fs.moveNode source target).contents = fs.contents ∧
      (fs.moveNode source target).workingDirectory = fs.workingDirectory := by
  rw [moveNode]
  split
  · rename_i hnone
    rw [h] at hnone
    cases hnone
  · rename_i l hl
    rw [h] at hl
    cases hl
    exact ⟨rfl, rfl, rfl⟩
  · rename_i hdir
    rw [h] at hdir
    cases hdir

theorem ne_nil_of_file {k : Nat} (h : fs.node? loc = some (.file k)) : loc ≠ [] := by
  rintro rfl
  cases h

theorem entries_of_node? (hloc : loc ≠ []) : fs.entries[loc]? = fs.node? loc := by
  rw [node?, if_neg hloc]

theorem number_lt {k : Nat} (h : fs.node? loc = some (.file k)) : k < fs.contents.size :=
  fs.numbered loc k ((entries_of_node? (ne_nil_of_file h)).trans h)

theorem content_setContent_self {k : Nat} (h : fs.node? loc = some (.file k)) (p : Packed) :
    (fs.setContent k p).content k = p := by
  rw [content_setContent, if_pos ⟨rfl, number_lt h⟩]

theorem node?_moveNode {source target : Location} {k : Nat}
    (h : fs.node? source = some (.file k)) (ht : target ≠ []) (l : Location) :
    (fs.moveNode source target).node? l =
      if l = target then some (.file k) else if l = source then none else fs.node? l := by
  have hs := ne_nil_of_file h
  have hsource : fs.entries[source]? = some (.file k) := (entries_of_node? hs).trans h
  rw [node?, (moveNode_of_file hsource).1, getElem?_insert, getElem?_erase, node?]
  by_cases hl : l = []
  · rw [if_pos hl, if_neg (hl ▸ ht.symm), if_neg (hl ▸ hs.symm), if_pos hl]
  · rw [if_neg hl, if_neg hl]

theorem ne_nil_of_none (h : fs.node? loc = none) : loc ≠ [] := by
  rintro rfl
  cases h

theorem content_size (fs : FileSystem) : fs.content fs.contents.size = .empty := by
  rw [content, Array.getD_eq_getD_getElem?, Array.getElem?_eq_none (Nat.le_refl _)]
  rfl

theorem heldIn_addFile (hnone : fs.node? loc = none) (l : Location) :
    heldIn (fs.addFile loc).2 l = if l = loc then some [] else heldIn fs l := by
  rw [heldIn, node?_addFile (ne_nil_of_none hnone)]
  by_cases hl : l = loc
  · simp only [if_pos hl, content_addFile, content_size]
    rfl
  · simp only [if_neg hl, content_addFile]
    rfl

theorem heldIn_setContent {k : Nat} (hk : fs.node? loc = some (.file k))
    (halone : ∀ l, fs.node? l = some (.file k) → l = loc) (p : Packed) (l : Location) :
    heldIn (fs.setContent k p) l = if l = loc then some p.toBytes else heldIn fs l := by
  have hnode : (fs.setContent k p).node? l = fs.node? l := rfl
  rw [heldIn, hnode]
  by_cases hl : l = loc
  · simp only [hl, hk, content_setContent_self hk, if_true]
  · rw [if_neg hl, heldIn]
    cases hn : fs.node? l with
    | none => rfl
    | some node =>
        cases node with
        | directory => rfl
        | file j =>
            have hj : ¬ (k = j ∧ j < fs.contents.size) := by
              rintro ⟨rfl, -⟩
              exact hl (halone l hn)
            simp only [content_setContent, if_neg hj]

theorem heldIn_eraseNode {k : Nat} (hk : fs.node? loc = some (.file k)) (l : Location) :
    heldIn (fs.eraseNode loc) l = if l = loc then none else heldIn fs l := by
  rw [heldIn, node?_eraseNode (ne_nil_of_file hk)]
  by_cases hl : l = loc
  · simp only [if_pos hl]
  · simp only [if_neg hl]
    rfl

theorem heldIn_moveNode {source target : Location} {k : Nat}
    (hk : fs.node? source = some (.file k)) (ht : target ≠ []) (l : Location) :
    heldIn (fs.moveNode source target) l =
      if l = target then heldIn fs source else if l = source then none else heldIn fs l := by
  have hsource := (entries_of_node? (ne_nil_of_file hk)).trans hk
  have hcontent : ∀ j, (fs.moveNode source target).content j = fs.content j := by
    intro j
    rw [content, (moveNode_of_file hsource).2.1]
    rfl
  rw [heldIn, node?_moveNode hk ht]
  by_cases hl : l = target
  · simp only [if_pos hl, heldIn, hk, hcontent]
  · by_cases hs : l = source
    · simp only [if_neg hl, if_pos hs]
    · simp only [if_neg hl, if_neg hs, hcontent]
      rfl

theorem sameWays_addFile (hnone : fs.node? loc = none) : SameWays fs (fs.addFile loc).2 := by
  refine ⟨rfl, fun l => ?_⟩
  have hloc : loc ≠ [] := by
    rintro rfl
    cases hnone
  rw [node?_addFile hloc]
  by_cases hl : l = loc
  · simp [hl, hnone]
  · rw [if_neg hl]

theorem sameWays_setContent (k : Nat) (p : Packed) : SameWays fs (fs.setContent k p) :=
  ⟨rfl, fun _ => Iff.rfl⟩

theorem sameWays_eraseNode {k : Nat} (h : fs.node? loc = some (.file k)) :
    SameWays fs (fs.eraseNode loc) := by
  refine ⟨rfl, fun l => ?_⟩
  rw [node?_eraseNode (ne_nil_of_file h)]
  by_cases hl : l = loc
  · simp [hl, h]
  · rw [if_neg hl]

theorem sameWays_moveNode {source target : Location} {k : Nat}
    (h : fs.node? source = some (.file k)) (ht : fs.node? target ≠ some .directory) :
    SameWays fs (fs.moveNode source target) := by
  have hnil : target ≠ [] := by
    rintro rfl
    exact ht rfl
  have hsource := (entries_of_node? (ne_nil_of_file h)).trans h
  refine ⟨(moveNode_of_file hsource).2.2, fun l => ?_⟩
  rw [node?_moveNode h hnil]
  by_cases hl : l = target
  · simp [hl, ht]
  · rw [if_neg hl]
    by_cases hs : l = source
    · simp [hs, h]
    · rw [if_neg hs]

theorem query_of_ok {α : Type} {f : FileSystem → Except SystemFault α} {a : α}
    (h : f fs = .ok a) : query f fs = .ok a fs := by
  rw [query, get_bind, h]
  rfl

theorem query_of_error {α : Type} {f : FileSystem → Except SystemFault α} {e : SystemFault}
    (h : f fs = .error e) : query f fs = .error e fs := by
  rw [query, get_bind, h]
  rfl

def Fails {α : Type} (m : Filing α) (fs : FileSystem) : Prop := ∃ e, m fs = .error e fs

theorem fails_throw {α : Type} (e : SystemFault) : Fails (throw e : Filing α) fs := ⟨e, rfl⟩

theorem fails_query {α β : Type} {f : FileSystem → Except SystemFault α} {e : SystemFault}
    (h : f fs = .error e) (g : α → Filing β) : Fails (query f >>= g) fs :=
  ⟨e, bind_of_error (query_of_error h) g⟩

theorem create_spec (path : String) (fs : FileSystem) : Fails (create path) fs ∨
    ∃ loc, placeIn fs path = some loc ∧
      ((fs.node? loc = none ∧ create path fs = .ok (fs.addFile loc).1 (fs.addFile loc).2) ∨
        ∃ k, fs.node? loc = some (.file k) ∧
          create path fs = .ok k (fs.setContent k .empty)) := by
  unfold create
  cases hr : fs.resolve path with
  | error e => exact .inl (fails_query hr _)
  | ok found =>
      obtain ⟨dir, goal⟩ := found
      rw [Fails, bind_of_ok (query_of_ok (f := (resolve · path)) hr)]
      cases goal with
      | here => exact .inl (fails_throw _)
      | up => exact .inl (fails_throw _)
      | name n slashed =>
          cases slashed with
          | true => exact .inl (fails_throw _)
          | false =>
              dsimp only
              by_cases hn : n.utf8ByteSize ≤ 255
              · have hchild := child?_of_le fs dir hn
                have hplace : placeIn fs path = some (n :: dir) :=
                  placeIn_eq_some_iff.mpr ⟨n, dir, hr, hn, rfl⟩
                rw [bind_of_ok (query_of_ok (f := (child? · dir n)) hchild)]
                cases hnode : fs.node? (n :: dir) with
                | none => exact .inr ⟨n :: dir, hplace, .inl ⟨hnode, rfl⟩⟩
                | some node =>
                    cases node with
                    | file k => exact .inr ⟨n :: dir, hplace, .inr ⟨k, hnode, rfl⟩⟩
                    | directory => exact .inl (fails_throw _)
              · exact .inl (fails_query (by rw [child?, if_pos (Nat.lt_of_not_le hn)]) _)

theorem create_cases (h : fs.isPresent path = false) : Fails (create path) fs ∨
    ∃ loc, placeIn fs path = some loc ∧ fs.node? loc = none ∧
      create path fs = .ok (fs.addFile loc).1 (fs.addFile loc).2 := by
  rcases create_spec path fs with hfail | ⟨loc, hplace, ⟨hnone, hok⟩ | ⟨k, hnode, -⟩⟩
  · exact .inl hfail
  · exact .inr ⟨loc, hplace, hnone, hok⟩
  · rw [isPresent, find_of_placeIn hplace, hnode] at h
    cases h

theorem remove_of_file {k : Nat} (hp : placeIn fs path = some loc)
    (hk : fs.node? loc = some (.file k)) : remove path fs = .ok () (fs.eraseNode loc) := by
  obtain ⟨n, dir, hr, hn, rfl⟩ := placeIn_eq_some_iff.mp hp
  have hchild := child?_of_le fs dir hn
  rw [hk] at hchild
  unfold remove
  rw [bind_of_ok (query_of_ok (f := (resolve · path)) hr)]
  dsimp only
  rw [bind_of_ok (query_of_ok (f := (child? · dir n)) hchild)]
  rfl

theorem rename_cases {old new : String} {source : Location} {k : Nat}
    (hp : placeIn fs old = some source) (hk : fs.node? source = some (.file k))
    (hne : placeIn fs new ≠ some source) : Fails (rename old new) fs ∨
      ∃ target, placeIn fs new = some target ∧ fs.node? target ≠ some .directory ∧
        rename old new fs = .ok () (fs.moveNode source target) := by
  obtain ⟨a, dir, hr, ha, rfl⟩ := placeIn_eq_some_iff.mp hp
  have hchild := child?_of_le fs dir ha
  rw [hk] at hchild
  unfold rename
  by_cases hz : (Path.hasZero old || Path.hasZero new) = true
  · exact .inl ⟨.zeroInName, by simp only [if_pos hz]; rfl⟩
  simp only [if_neg hz]
  rw [Fails, bind_of_ok (query_of_ok (f := (resolve · old)) hr)]
  cases hr' : fs.resolve new with
  | error e => exact .inl (fails_query hr' _)
  | ok found =>
      obtain ⟨dir', goal⟩ := found
      rw [bind_of_ok (query_of_ok (f := (resolve · new)) hr')]
      cases goal with
      | here => exact .inl (fails_throw _)
      | up => exact .inl (fails_throw _)
      | name b slashed =>
          dsimp only
          rw [bind_of_ok (query_of_ok (f := (child? · dir a)) hchild)]
          dsimp only
          by_cases hb : b.utf8ByteSize ≤ 255
          · have hchild' := child?_of_le fs dir' hb
            rw [bind_of_ok (query_of_ok (f := (child? · dir' b)) hchild')]
            cases slashed with
            | true => exact .inl ⟨.notDirectory, by simp; rfl⟩
            | false =>
                have hplace : placeIn fs new = some (b :: dir') :=
                  placeIn_eq_some_iff.mpr ⟨b, dir', hr', hb, rfl⟩
                have hst : a :: dir ≠ b :: dir' := fun heq => hne (heq ▸ hplace)
                by_cases hinto : a :: dir <:+ dir'
                · exact .inl ⟨.invalidArgument, by simp [hinto]; rfl⟩
                by_cases hover : b :: dir' <:+ dir
                · exact .inl ⟨.notEmpty, by simp [hinto, hover]; rfl⟩
                simp only [hinto, hover, hst, Bool.false_eq_true, or_self, and_false, if_false]
                cases hnode : fs.node? (b :: dir') with
                | none => exact .inr ⟨b :: dir', hplace, by simp [hnode], rfl⟩
                | some node =>
                    cases node with
                    | file l => exact .inr ⟨b :: dir', hplace, by simp [hnode], rfl⟩
                    | directory => exact .inl (fails_throw _)
          · exact .inl (fails_query (by rw [child?, if_pos (Nat.lt_of_not_le hb)]) _)

end Concordance.Proofs.FileActions
