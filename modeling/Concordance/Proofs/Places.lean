import Mathlib.Data.List.Basic
import Concordance.Catalog
import Concordance.Proofs.Outcomes
import Concordance.Proofs.Pieces

namespace Concordance.Proofs.Places

open Pieces (fieldsOf_of_forall fieldsOf_append_cons)
open Storing (temporaryName)

/-- A name that stays a single name when it is put behind a directory. -/
structure Plain (n : String) : Prop where
  unslashed : '/' ∉ n.toList
  ne_empty : n ≠ ""
  ne_here : n ≠ "."
  ne_up : n ≠ ".."

theorem namesOf_append {n : String} (hslash : '/' ∉ n.toList) (hne : n ≠ "") {before : List Char}
    (hb : before = [] ∨ ∃ dir, before = dir ++ ['/']) :
    ∃ ns, Path.namesOf (String.ofList (before ++ n.toList)) = ns ++ [n] := by
  have hn : Text.fieldsOf (fun c => decide (c = '/')) n.toList = [n.toList] := by
    apply fieldsOf_of_forall
    intro c hc
    exact decide_eq_false fun heq => hslash (heq ▸ hc)
  rcases hb with rfl | ⟨dir, rfl⟩
  · refine ⟨[], ?_⟩
    rw [Path.namesOf, Text.fields, List.nil_append, String.toList_ofList, hn]
    simpa using hne
  · refine ⟨((Text.fieldsOf (fun c => decide (c = '/')) dir).map String.ofList).filter
      (· ≠ ""), ?_⟩
    rw [Path.namesOf, Text.fields, String.toList_ofList, List.append_assoc, List.singleton_append,
      fieldsOf_append_cons (by simp), hn, List.map_append, List.filter_append]
    simp [hne]

theorem join_eq (dir n : String) :
    ∃ before : List Char, (before = [] ∨ ∃ d, before = d ++ ['/']) ∧
      Path.join dir n = String.ofList (before ++ n.toList) := by
  rw [Path.join]
  split
  · exact ⟨[], .inl rfl, by simp⟩
  split
  · rename_i hdir
    refine ⟨dir.toList, ?_, by simp⟩
    rcases hdir with rfl | hdir
    · exact .inl rfl
    · rw [Path.endsInSlash, decide_eq_true_eq] at hdir
      obtain ⟨d, hd⟩ := List.getLast?_eq_some_iff.mp hdir
      exact .inr ⟨d, hd⟩
  · exact ⟨dir.toList ++ ['/'], .inr ⟨_, rfl⟩, by apply String.toList_inj.mp; simp⟩

theorem endsInSlash_of_plain {n : String} (h : Plain n) (before : List Char) :
    Path.endsInSlash (String.ofList (before ++ n.toList)) = false := by
  have hne : n.toList ≠ [] := by simpa using h.ne_empty
  rw [Path.endsInSlash, decide_eq_false_iff_not, String.toList_ofList,
    List.getLast?_append_of_ne_nil _ hne]
  intro hlast
  exact h.unslashed (List.mem_of_getLast? hlast)

theorem ofName_of_plain {n : String} (h : Plain n) (slashed : Bool) :
    PathGoal.ofName n slashed = .name n slashed := by
  rw [PathGoal.ofName, PathStep.ofName, if_neg h.ne_here, if_neg h.ne_up]

theorem goal_of_plain {n dir : String} (h : Plain n) {p : Path}
    (hp : Path.ofString (Path.join dir n) = .ok p) : p.goal = .name n false := by
  obtain ⟨before, hb, hjoin⟩ := join_eq dir n
  obtain ⟨ns, hns⟩ := namesOf_append h.unslashed h.ne_empty hb
  rw [hjoin, Path.ofString] at hp
  split at hp
  · cases hp
  split at hp
  · cases hp
  split at hp
  · cases hp
  rw [hns, List.reverse_append, List.reverse_singleton, List.singleton_append] at hp
  cases hp
  rw [endsInSlash_of_plain h before]
  exact ofName_of_plain h false

theorem toList_temporaryName (stem : String) (n : Nat) :
    (temporaryName stem n).toList =
      stem.toList ++ '_' :: Nat.toDigits 10 n ++ ['.', 't', 'm', 'p'] := by
  have hstring : ∀ s : String, toString s = s := fun _ => rfl
  simp [temporaryName, hstring]

theorem getLast?_temporaryName (stem : String) (n : Nat) :
    (temporaryName stem n).toList.getLast? = some 'p' := by
  rw [toList_temporaryName, List.getLast?_append_of_ne_nil _ (by simp)]
  rfl

theorem plain_temporaryName {stem : String} (h : Plain stem) (n : Nat) :
    Plain (temporaryName stem n) := by
  have hlast := getLast?_temporaryName stem n
  refine ⟨?_, ?_, ?_, ?_⟩
  · rw [toList_temporaryName]
    have hdigits : '/' ∉ Nat.toDigits 10 n := by
      intro hmem
      have hdigit := Nat.isDigit_of_mem_toDigits (by decide) (by decide) hmem
      exact absurd hdigit (by decide)
    simp [h.unslashed, hdigits]
  · rintro heq
    rw [heq] at hlast
    exact absurd hlast (by decide)
  · rintro heq
    rw [heq] at hlast
    exact absurd hlast (by decide)
  · rintro heq
    rw [heq] at hlast
    exact absurd hlast (by decide)

theorem plain_fileName (f : Field) : Plain f.fileName := by
  cases f <;> exact ⟨by decide, by decide, by decide, by decide⟩

theorem fileName_injective {f g : Field} (h : f.fileName = g.fileName) : f = g := by
  cases f <;> cases g <;> first | rfl | exact absurd h (by decide)

theorem temporaryName_ne_fileName (stem : String) (n : Nat) (f : Field) :
    temporaryName stem n ≠ f.fileName := by
  intro heq
  have hlast := getLast?_temporaryName stem n
  rw [heq] at hlast
  cases f <;> exact absurd hlast (by decide)

/-- The fields share no temporary names, since their names differ in the first letter. -/
theorem field_of_temporaryName {f g : Field} {m n : Nat}
    (h : temporaryName f.fileName m = temporaryName g.fileName n) : f = g := by
  have hhead := congrArg (fun s : String => s.toList.head?) h
  simp only [toList_temporaryName] at hhead
  cases f <;> cases g <;> first | rfl | simp [Field.fileName, Field.name] at hhead

/-- Where the file of a path lies, or would lie. -/
def placeIn (fs : FileSystem) (path : String) : Option Location :=
  match fs.resolve path with
  | .ok (dir, .name n false) => if n.utf8ByteSize ≤ 255 then some (n :: dir) else none
  | _ => none

def heldIn (fs : FileSystem) (loc : Location) : Option Bytes :=
  match fs.node? loc with
  | some (.file k) => some (fs.content k).toBytes
  | _ => none

section

variable {fs fs' : FileSystem} {path : String} {loc : Location}

theorem placeIn_eq_some_iff : placeIn fs path = some loc ↔ ∃ n dir,
    fs.resolve path = .ok (dir, .name n false) ∧ n.utf8ByteSize ≤ 255 ∧ n :: dir = loc := by
  unfold placeIn
  constructor
  · intro h
    split at h
    · rename_i dir n hr
      split at h
      · rename_i hn
        exact ⟨n, dir, hr, hn, Option.some.inj h⟩
      · cases h
    · cases h
  · rintro ⟨n, dir, hr, hn, rfl⟩
    simp only [hr, if_pos hn]

theorem child?_of_le (fs : FileSystem) (dir : Location) {n : String}
    (h : n.utf8ByteSize ≤ 255) : fs.child? dir n = .ok (fs.node? (n :: dir)) := by
  rw [FileSystem.child?, if_neg (by omega)]

theorem find_of_placeIn (h : placeIn fs path = some loc) :
    fs.find path = match fs.node? loc with
      | some node => .ok (loc, node)
      | none => .error .noEntry := by
  obtain ⟨n, dir, hr, hn, rfl⟩ := placeIn_eq_some_iff.mp h
  simp only [FileSystem.find, hr, child?_of_le _ _ hn, Outcomes.ok_bind]
  cases hnode : fs.node? (n :: dir) with
  | none => rfl
  | some node =>
      cases node with
      | file k => rfl
      | directory => rfl

theorem placeIn_of_find {k : Nat} (h : fs.find path = .ok (loc, .file k)) :
    placeIn fs path = some loc ∧ fs.node? loc = some (.file k) := by
  rw [FileSystem.find] at h
  cases hr : fs.resolve path with
  | error e =>
      rw [hr, Outcomes.error_bind] at h
      cases h
  | ok goal =>
      obtain ⟨dir, goal⟩ := goal
      rw [hr, Outcomes.ok_bind] at h
      cases goal with
      | here => cases h
      | up => cases h
      | name n slashed =>
          by_cases hn : n.utf8ByteSize ≤ 255
          · simp only [child?_of_le _ _ hn, Outcomes.ok_bind] at h
            cases hnode : fs.node? (n :: dir) with
            | none =>
                rw [hnode] at h
                cases h
            | some node =>
                cases node with
                | directory =>
                    rw [hnode] at h
                    cases h
                | file l =>
                    cases slashed with
                    | true =>
                        rw [hnode] at h
                        cases h
                    | false =>
                        rw [hnode] at h
                        cases h
                        exact ⟨placeIn_eq_some_iff.mpr ⟨n, dir, hr, hn, rfl⟩, hnode⟩
          · simp only [FileSystem.child?, if_pos (Nat.lt_of_not_le hn), Outcomes.error_bind] at h
            cases h

theorem read_eq (fs : FileSystem) (path : String) :
    (fs.read path).toOption = (placeIn fs path).bind (heldIn fs) := by
  cases hp : placeIn fs path with
  | some loc =>
      rw [Option.bind_some, FileSystem.read, find_of_placeIn hp, heldIn]
      cases fs.node? loc with
      | none => rfl
      | some node =>
          cases node with
          | file k => rfl
          | directory => rfl
  | none =>
      rw [Option.bind_none, FileSystem.read]
      cases hf : fs.find path with
      | error e => rfl
      | ok found =>
          obtain ⟨loc, node⟩ := found
          cases node with
          | directory => rfl
          | file k =>
              rw [(placeIn_of_find hf).1] at hp
              cases hp

/-- The two file systems differ in files at most, not in directories. -/
structure SameWays (fs fs' : FileSystem) : Prop where
  workingDirectory : fs'.workingDirectory = fs.workingDirectory
  directory_iff : ∀ loc, fs'.node? loc = some .directory ↔ fs.node? loc = some .directory

theorem follow_name_eq_ok_iff (fs : FileSystem) (n : String) (steps : List PathStep)
    (loc dir : Location) : fs.follow loc (.name n :: steps) = .ok dir ↔
      n.utf8ByteSize ≤ 255 ∧ fs.node? (n :: loc) = some .directory ∧
        fs.follow (n :: loc) steps = .ok dir := by
  rw [FileSystem.follow]
  by_cases hn : n.utf8ByteSize ≤ 255
  · rw [child?_of_le _ _ hn, Outcomes.ok_bind]
    cases hnode : fs.node? (n :: loc) with
    | none => simp [throw, throwThe, MonadExceptOf.throw]
    | some node =>
        cases node with
        | file k => simp [throw, throwThe, MonadExceptOf.throw]
        | directory => simp [hn]
  · rw [FileSystem.child?, if_pos (Nat.lt_of_not_le hn), Outcomes.error_bind]
    simp [hn]

theorem resolve_eq_ok (fs : FileSystem) (x : Location × PathGoal) : fs.resolve path = .ok x ↔
    ∃ p, Path.ofString path = .ok p ∧
      fs.follow (if p.absolute then [] else fs.workingDirectory) p.way = .ok x.1 ∧
        p.goal = x.2 := by
  rw [FileSystem.resolve]
  cases Path.ofString path with
  | error e => simp [Outcomes.error_bind]
  | ok p =>
      rw [Outcomes.ok_bind]
      cases hf : fs.follow (if p.absolute then [] else fs.workingDirectory) p.way with
      | error e => simp [hf]
      | ok dir =>
          obtain ⟨d, g⟩ := x
          simp [Outcomes.ok_bind, hf, pure, Except.pure]

theorem follow_eq_ok_iff (h : SameWays fs fs') (steps : List PathStep) (loc dir : Location) :
    fs'.follow loc steps = .ok dir ↔ fs.follow loc steps = .ok dir := by
  induction steps generalizing loc with
  | nil => rfl
  | cons step steps ih =>
      cases step with
      | here => exact ih loc
      | up => exact ih loc.tail
      | name n => rw [follow_name_eq_ok_iff, follow_name_eq_ok_iff, ih (n :: loc), h.directory_iff]

theorem resolve_eq_ok_iff (h : SameWays fs fs') (x : Location × PathGoal) :
    fs'.resolve path = .ok x ↔ fs.resolve path = .ok x := by
  rw [resolve_eq_ok, resolve_eq_ok, h.workingDirectory]
  simp only [follow_eq_ok_iff h]

theorem placeIn_congr (h : SameWays fs fs') : placeIn fs' path = placeIn fs path := by
  apply Option.ext
  intro loc
  rw [placeIn_eq_some_iff, placeIn_eq_some_iff]
  simp only [resolve_eq_ok_iff h]

theorem resolve_of_plain {n dir : String} (h : Plain n) {x : Location × PathGoal}
    (hr : fs.resolve (Path.join dir n) = .ok x) : x.2 = .name n false := by
  rw [FileSystem.resolve] at hr
  obtain ⟨p, hpath, hr⟩ := Outcomes.bind_eq_ok hr
  obtain ⟨way, -, hr⟩ := Outcomes.bind_eq_ok hr
  rw [← goal_of_plain h hpath, ← Except.ok.inj hr]

theorem head?_of_placeIn {n dir : String} (h : Plain n)
    (hp : placeIn fs (Path.join dir n) = some loc) : loc.head? = some n := by
  obtain ⟨m, way, hr, -, rfl⟩ := placeIn_eq_some_iff.mp hp
  cases resolve_of_plain h hr
  rfl

theorem not_isPresent_of_placeIn {n dir : String} (h : Plain n)
    (hp : placeIn fs (Path.join dir n) = none) : fs.isPresent (Path.join dir n) = false := by
  rw [FileSystem.isPresent, FileSystem.find]
  cases hr : fs.resolve (Path.join dir n) with
  | error e => rfl
  | ok x =>
      obtain ⟨way, goal⟩ := x
      obtain rfl : goal = .name n false := resolve_of_plain h hr
      have hlong : 255 < n.utf8ByteSize := by
        by_contra hle
        rw [placeIn_eq_some_iff.mpr ⟨n, way, hr, Nat.le_of_not_lt hle, rfl⟩] at hp
        cases hp
      simp only [Outcomes.ok_bind, FileSystem.child?, if_pos hlong]
      rfl

end

/-- Where the file of a name lies, or would lie. In memory names are all there is to places. -/
def place? (s : Storage) (name : String) : Option Location :=
  match s.backend with
  | .memory _ => some [name]
  | .directory fs d => placeIn fs (Path.join d.path name)

def shownIn (files : Files) : Location → Option Bytes
  | [name] => files[name]?.map Packed.toBytes
  | _ => none

def fileAt (s : Storage) (loc : Location) : Option Bytes :=
  match s.backend with
  | .memory files => shownIn files loc
  | .directory fs _ => heldIn fs loc

def IsDirectoryAt (s : Storage) (loc : Location) : Prop :=
  match s.backend with
  | .memory _ => False
  | .directory fs _ => fs.node? loc = some .directory

theorem isPresent_iff {s : Storage} {n : String} (h : Plain n) : s.isPresent n = true ↔
    ∃ loc, place? s n = some loc ∧ (fileAt s loc ≠ none ∨ IsDirectoryAt s loc) := by
  obtain ⟨backend, plan, clock, warnings⟩ := s
  cases backend with
  | memory files =>
      simp [Storage.isPresent, place?, fileAt, shownIn, IsDirectoryAt]
  | directory fs d =>
      have hpresent : (∃ loc, placeIn fs (Path.join d.path n) = some loc ∧
          (heldIn fs loc ≠ none ∨ fs.node? loc = some .directory)) ↔
            fs.isPresent (Path.join d.path n) = true := by
        cases hp : placeIn fs (Path.join d.path n) with
        | none => simp [not_isPresent_of_placeIn h hp]
        | some loc =>
            rw [FileSystem.isPresent, find_of_placeIn hp]
            cases hnode : fs.node? loc with
            | none => simp [heldIn, hnode, Except.isOk, Except.toBool]
            | some node => cases node <;> simp [heldIn, hnode, Except.isOk, Except.toBool]
      exact hpresent.symm

theorem file?_eq (s : Storage) (name : String) :
    s.file? name = (place? s name).bind (fileAt s) := by
  obtain ⟨backend, plan, clock, warnings⟩ := s
  cases backend with
  | memory files => rfl
  | directory fs d => exact read_eq fs (Path.join d.path name)

theorem head?_of_place? {s : Storage} {n : String} {loc : Location} (h : Plain n)
    (hp : place? s n = some loc) : loc.head? = some n := by
  obtain ⟨backend, plan, clock, warnings⟩ := s
  cases backend with
  | memory files =>
      cases hp
      rfl
  | directory fs d => exact head?_of_placeIn h hp

theorem place?_ne {s : Storage} {m n : String} {l : Location} (hm : Plain m) (hn : Plain n)
    (hne : m ≠ n) (hl : place? s m = some l) : place? s n ≠ some l := by
  intro hl'
  have h := (head?_of_place? hm hl).symm.trans (head?_of_place? hn hl')
  exact hne (Option.some.inj h)

end Concordance.Proofs.Places
