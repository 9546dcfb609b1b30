import Concordance.Proofs.Places

namespace Concordance.Proofs.NameEndings

open Places
open Storing (temporaryName)

def temporaryEnd : List Char := ['.', 't', 'm', 'p']

def IsTemporary (name : String) : Prop := temporaryEnd <:+ name.toList

instance : DecidablePred IsTemporary := fun name =>
  inferInstanceAs (Decidable (temporaryEnd <:+ name.toList))

def temporaries : Set Location := {loc | ∃ n ∈ loc.head?, IsTemporary n}

theorem isTemporary_temporaryName (stem : String) (i : Nat) :
    IsTemporary (temporaryName stem i) := by
  rw [IsTemporary, toList_temporaryName]
  exact List.suffix_append _ _

theorem suffix_slash_iff {t : List Char} (ht : '/' ∉ t) (d x : List Char) :
    t <:+ d ++ '/' :: x ↔ t <:+ x := by
  constructor
  · intro h
    rcases List.suffix_or_suffix_of_suffix h (List.suffix_append d ('/' :: x)) with hle | hle
    · rcases List.suffix_cons_iff.mp hle with rfl | hx
      · exact absurd List.mem_cons_self ht
      · exact hx
    · exact absurd (hle.subset List.mem_cons_self) ht
  · intro h
    exact h.trans ((List.suffix_cons '/' x).trans (List.suffix_append d _))

theorem suffix_append_iff {before : List Char} (hb : before = [] ∨ ∃ d, before = d ++ ['/'])
    {t : List Char} (ht : '/' ∉ t) (x : List Char) : t <:+ before ++ x ↔ t <:+ x := by
  obtain rfl | ⟨d, rfl⟩ := hb
  · rfl
  · rw [List.append_assoc]
    exact suffix_slash_iff ht d x

theorem exists_last_field (l : List Char) :
    ∃ before x : List Char, l = before ++ x ∧ '/' ∉ x ∧
      (before = [] ∨ ∃ d, before = d ++ ['/']) := by
  induction l with
  | nil => exact ⟨[], [], rfl, List.not_mem_nil, .inl rfl⟩
  | cons c l ih =>
      obtain ⟨before, x, rfl, hx, rfl | ⟨d, rfl⟩⟩ := ih
      · by_cases hc : c = '/'
        · exact ⟨[c], x, rfl, hx, .inr ⟨[], by rw [hc]; rfl⟩⟩
        · refine ⟨[], c :: x, rfl, ?_, .inl rfl⟩
          rw [List.mem_cons, not_or]
          exact ⟨Ne.symm hc, hx⟩
      · exact ⟨c :: (d ++ ['/']), x, rfl, hx, .inr ⟨c :: d, rfl⟩⟩

theorem ofName_eq_name {m n : String} {slashed : Bool}
    (h : PathGoal.ofName m slashed = .name n false) : m = n ∧ slashed = false := by
  rw [PathGoal.ofName, PathStep.ofName] at h
  split at h
  · cases h
  · cases h
  · rename_i k hk
    split at hk
    · cases hk
    · split at hk
      · cases hk
      · cases hk
        cases h
        exact ⟨rfl, rfl⟩

theorem goal_of_ofString {s n : String} {p : Path} (hp : Path.ofString s = .ok p)
    (hgoal : p.goal = .name n false) :
    ∃ before : List Char, s.toList = before ++ n.toList ∧
      (before = [] ∨ ∃ d, before = d ++ ['/']) := by
  obtain ⟨before, x, hs, hx, hb⟩ := exists_last_field s.toList
  have hstring : s = String.ofList (before ++ x) := by rw [← hs, String.ofList_toList]
  refine ⟨before, ?_, hb⟩
  rw [Path.ofString] at hp
  split at hp
  · cases hp
  split at hp
  · cases hp
  split at hp
  · cases hp
  rename_i hne _
  by_cases hnil : x = []
  · -- nothing stands behind the last slash, so that the path asks for a directory
    obtain rfl | ⟨d, rfl⟩ := hb
    · rw [hnil] at hstring
      exact absurd hstring hne
    · have hslashed : Path.endsInSlash s = true := by
        rw [Path.endsInSlash, hs, hnil, List.append_nil, List.getLast?_concat]
        rfl
      rw [hslashed] at hp
      split at hp
      · cases hp
        cases hgoal
      · cases hp
        exact absurd (ofName_eq_name hgoal).2 (by decide)
  · have hlist : (String.ofList x).toList = x := String.toList_ofList
    obtain ⟨ns, hns⟩ := namesOf_append (by rwa [hlist]) (fun heq => hnil (by rw [← hlist, heq]; rfl)) hb
    rw [hlist, ← hstring] at hns
    rw [hns, List.reverse_append, List.reverse_singleton, List.singleton_append] at hp
    cases hp
    rw [hs, ← (ofName_eq_name hgoal).1, hlist]

theorem isTemporary_of_placeIn {fs : FileSystem} {dir name : String} {loc : Location}
    (h : placeIn fs (Path.join dir name) = some loc) :
    ∃ n ∈ loc.head?, (IsTemporary n ↔ IsTemporary name) := by
  obtain ⟨n, way, hr, -, rfl⟩ := placeIn_eq_some_iff.mp h
  refine ⟨n, rfl, ?_⟩
  have hslash : '/' ∉ temporaryEnd := by decide
  obtain ⟨front, hfront, hjoin⟩ := join_eq dir name
  rw [FileSystem.resolve] at hr
  obtain ⟨p, hpath, hr⟩ := Outcomes.bind_eq_ok hr
  obtain ⟨d, -, hr⟩ := Outcomes.bind_eq_ok hr
  obtain ⟨-, hgoal⟩ := Prod.mk.inj (Except.ok.inj hr)
  obtain ⟨before, hs, hb⟩ := goal_of_ofString hpath hgoal
  rw [hjoin, String.toList_ofList] at hs
  rw [IsTemporary, IsTemporary, ← suffix_append_iff hb hslash, ← hs,
    suffix_append_iff hfront hslash]

/-- A name that leads to a place ends in the ending of the temporary files if the place does. -/
theorem mem_temporaries_iff {s : Storage} {name : String} {loc : Location}
    (h : place? s name = some loc) : loc ∈ temporaries ↔ IsTemporary name := by
  have hhead : ∃ n ∈ loc.head?, (IsTemporary n ↔ IsTemporary name) := by
    obtain ⟨backend, plan, clock, warnings⟩ := s
    cases backend with
    | memory files =>
        cases h
        exact ⟨name, rfl, Iff.rfl⟩
    | directory fs d => exact isTemporary_of_placeIn h
  obtain ⟨n, hn, hiff⟩ := hhead
  rw [← hiff]
  constructor
  · rintro ⟨m, hm, htemporary⟩
    obtain rfl := Option.mem_unique hm hn
    exact htemporary
  · exact fun htemporary => ⟨n, hn, htemporary⟩

end Concordance.Proofs.NameEndings
