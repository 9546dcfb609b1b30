import Concordance.Proofs.Cursors
import Concordance.Proofs.Frames
import Concordance.Proofs.Scripts

namespace Concordance.Proofs.Calls

open Outcomes Places FileActions Frames Cursors
open Storing (temporaryName temporaryLimit)

def counted (s : Storage) : Storage := { s with clock := s.clock + 1 }

def Refusable (s : Storage) (c : StorageCall) (name : String) : Prop :=
  ∃ clock, s.plan.refuses clock c name = true

section

variable {n : Nat} {s t : Storage} {name : String}

theorem call_eq (c : StorageCall) (name : String) (s : Storage) : Storing.call c name s =
    if s.plan.refuses s.clock c name then .error (.storage (.refused c name)) (counted s)
    else .ok () (counted s) := by
  change (if s.plan.refuses s.clock c name = true then
    (throw (.storage (.refused c name)) : Storing Unit) else pure ()) (counted s) = _
  cases s.plan.refuses s.clock c name with
  | false => rfl
  | true => rfl

theorem call_refused {c : StorageCall} (hr : s.plan.refuses s.clock c name = true) :
    Storing.call c name s = .error (.storage (.refused c name)) (counted s) := by
  rw [call_eq, if_pos hr]

theorem call_cases (c : StorageCall) (name : String) (s : Storage) :
    Storing.call c name s = .ok () (counted s) ∨
      Refusable s c name ∧
        Storing.call c name s = .error (.storage (.refused c name)) (counted s) := by
  rw [call_eq]
  cases hr : s.plan.refuses s.clock c name with
  | false => exact .inl rfl
  | true => exact .inr ⟨⟨s.clock, hr⟩, rfl⟩

theorem changes_counted (n : Nat) (P : Set Location) (s : Storage) : Changes n P s (counted s) :=
  changes_of_backend rfl rfl

theorem answer_of_ok {r : Request} {a : r.Reply} (h : r.perform s = .ok a t) :
    r.answer s = (.ok a, t) := by
  rw [Request.answer, h]

theorem answer_of_error {r : Request} {e : Error} (h : r.perform s = .error e t) :
    r.answer s = (.error e, t) := by
  rw [Request.answer, h]

theorem Reliable.not_refusable {K : Set (StorageCall × String)} (h : Reliable K s)
    {c : StorageCall} (hmem : (c, name) ∈ K) : ¬ Refusable s c name := by
  rintro ⟨clock, hr⟩
  rw [h.calls clock c name hmem] at hr
  cases hr

def asked : Request → Set (StorageCall × String)
  | .createTemporary _ => {x | x.1 = .create}
  | .delete name => {(.delete, name)}
  | .rename _ new => {(.rename, new)}
  | .openInput name => {(.openFile, name)}
  | _ => ∅

theorem perform_of_answer {r : Request} {a : r.Reply} (h : r.answer s = (.ok a, t)) :
    r.perform s = .ok a t := by
  rw [Request.answer] at h
  cases hr : r.perform s with
  | ok a s =>
      rw [hr] at h
      cases h
      rfl
  | error e s =>
      rw [hr] at h
      cases h

/-- The call looks for the name of a temporary file, and all of them are taken. -/
def Crowded (s : Storage) : Request → Prop
  | .createTemporary stem => ∀ i < temporaryLimit, s.isPresent (temporaryName stem i) = true
  | _ => False

theorem not_crowded {stem : String} {i : Nat} (hi : i < temporaryLimit)
    (h : s.isPresent (temporaryName stem i) = false) : ¬ Crowded s (.createTemporary stem) := by
  intro hcrowded
  rw [hcrowded i hi] at h
  cases h

/-- A call of a storage fails and changes nothing. If it is not refused this is for want of a
name. -/
def Stops (n : Nat) (r : Request) (s : Storage) : Prop :=
  ∃ e t, r.answer s = (.error e, t) ∧ Changes n ∅ s t ∧ (Reliable (asked r) s → Crowded s r)

theorem stops_of_refused {r : Request} {c : StorageCall} {e : Error} (n : Nat)
    (h : r.answer s = (.error e, counted s)) (hr : Refusable s c name) (hmem : (c, name) ∈ asked r) :
    Stops n r s :=
  ⟨e, _, h, changes_counted n ∅ s, fun hs => absurd hr (Reliable.not_refusable hs hmem)⟩

theorem stops_of_directory {r : Request} {e : Error} {fs : FileSystem} {d : DirectorySettings}
    (hb : s.backend = .directory fs d) (h : r.answer s = (.error e, t)) (hc : Changes n ∅ s t) :
    Stops n r s :=
  ⟨e, t, h, hc, fun hf => absurd hb hf.not_directory⟩

theorem node?_of_fileAt {fs : FileSystem} {d : DirectorySettings} {loc : Location}
    (hb : s.backend = .directory fs d) (h : fileAt s loc ≠ none) :
    ∃ k, fs.node? loc = some (.file k) := by
  rw [fileAt, hb] at h
  dsimp only [heldIn] at h
  split at h
  · rename_i k hk
    exact ⟨k, hk⟩
  · exact absurd rfl h

theorem content_of_directory {fs : FileSystem} {d : DirectorySettings}
    (hb : s.backend = .directory fs d) (k : Nat) : s.content k = fs.content k := by
  rw [Storage.content, hb]

theorem delete_memory {files : Files} (n : Nat) (hb : s.backend = .memory files)
    (hc : Storing.call .delete name s = .ok () (counted s)) :
    ∃ t, (Request.delete name).answer s = (.ok (), t) ∧ Changes n {[name]} s t ∧
      fileAt t [name] = none := by
  have hrun : (Request.delete name).perform s = _ := bind_of_ok hc _
  rw [get_bind] at hrun
  simp only [counted, hb] at hrun
  refine ⟨_, answer_of_ok hrun, changes_memory hb rfl rfl fun m hm => ?_, ?_⟩
  · rw [getElem?_erase, if_neg]
    rintro rfl
    exact hm rfl
  · change (files.erase name)[name]?.map Packed.toBytes = none
    rw [getElem?_erase, if_pos rfl]
    rfl

theorem delete_directory {fs : FileSystem} {d : DirectorySettings} {loc : Location} {k : Nat}
    (n : Nat) (hb : s.backend = .directory fs d)
    (hc : Storing.call .delete name s = .ok () (counted s))
    (hp : placeIn fs (Path.join d.path name) = some loc) (hk : fs.node? loc = some (.file k)) :
    ∃ t, (Request.delete name).answer s = (.ok (), t) ∧ Changes n {loc} s t ∧
      fileAt t loc = none := by
  have hrun : (Request.delete name).perform s = _ := bind_of_ok hc _
  rw [get_bind] at hrun
  have hpresent : fs.isPresent (Path.join d.path name) = true := by
    rw [FileSystem.isPresent, find_of_placeIn hp, hk]
    rfl
  simp only [counted, hb, hpresent, if_true, Storing.filing, remove_of_file hp hk] at hrun
  refine ⟨_, answer_of_ok hrun, changes_directory hb rfl rfl (sameWays_eraseNode hk) ?_
    (Nat.le_refl _) fun _ _ => rfl, ?_⟩
  · intro l hl
    exact (heldIn_eraseNode hk l).trans (if_neg hl)
  · exact (heldIn_eraseNode hk loc).trans (if_pos rfl)

theorem delete_cases {loc : Location} (n : Nat) (hp : place? s name = some loc)
    (hf : fileAt s loc ≠ none) :
    Stops n (.delete name) s ∧ Refusable s .delete name ∨
      ∃ t, (Request.delete name).answer s = (.ok (), t) ∧ Changes n {loc} s t ∧
        fileAt t loc = none := by
  rcases call_cases .delete name s with hc | ⟨hr, hc⟩
  · right
    cases hb : s.backend with
    | memory files =>
        rw [place?, hb] at hp
        cases hp
        exact delete_memory n hb hc
    | directory fs d =>
        obtain ⟨k, hk⟩ := node?_of_fileAt hb hf
        rw [place?, hb] at hp
        exact delete_directory n hb hc hp hk
  · exact .inl ⟨stops_of_refused n (answer_of_error (bind_of_error hc _)) hr rfl, hr⟩

theorem rename_memory {files : Files} {new : String} {p : Packed} (n : Nat)
    (hb : s.backend = .memory files) (hc : Storing.call .rename new s = .ok () (counted s))
    (hp : files[name]? = some p) (hne : name ≠ new) :
    ∃ t, (Request.rename name new).answer s = (.ok (), t) ∧ Changes n {[name], [new]} s t ∧
      fileAt t [name] = none ∧ fileAt t [new] = some p.toBytes := by
  have hrun : (Request.rename name new).perform s = _ := bind_of_ok hc _
  rw [get_bind] at hrun
  simp only [counted, hb, hp] at hrun
  refine ⟨_, answer_of_ok hrun, changes_memory hb rfl rfl fun m hm => ?_, ?_, ?_⟩
  · rw [getElem?_insert, getElem?_erase, if_neg, if_neg]
    · rintro rfl
      exact hm (.inl rfl)
    · rintro rfl
      exact hm (.inr rfl)
  · change ((files.erase name).insert new p)[name]?.map Packed.toBytes = none
    rw [getElem?_insert, if_neg hne, getElem?_erase, if_pos rfl]
    rfl
  · change ((files.erase name).insert new p)[new]?.map Packed.toBytes = some p.toBytes
    rw [getElem?_insert, if_pos rfl]
    rfl

theorem rename_directory {fs : FileSystem} {d : DirectorySettings} {new : String}
    {source : Location} {k : Nat} (n : Nat) (hb : s.backend = .directory fs d)
    (hc : Storing.call .rename new s = .ok () (counted s))
    (hp : placeIn fs (Path.join d.path name) = some source)
    (hk : fs.node? source = some (.file k))
    (hne : placeIn fs (Path.join d.path new) ≠ some source) :
    Stops n (.rename name new) s ∨
      ∃ t target, (Request.rename name new).answer s = (.ok (), t) ∧
        placeIn fs (Path.join d.path new) = some target ∧ Changes n {source, target} s t ∧
        fileAt t source = none ∧ fileAt t target = heldIn fs source := by
  have hrun : (Request.rename name new).perform s = _ := bind_of_ok hc _
  rw [get_bind] at hrun
  rcases FileActions.rename_cases hp hk hne with ⟨e, he⟩ | ⟨target, ht, hdir, hr⟩
  · left
    simp only [counted, hb, Storing.filing, he] at hrun
    exact stops_of_directory hb (answer_of_error hrun) (changes_of_backend hb.symm rfl)
  · right
    have hnil : target ≠ [] := by
      rintro rfl
      exact hdir rfl
    have hst : source ≠ target := fun heq => hne (heq ▸ ht)
    have hheld := heldIn_moveNode hk hnil
    have hsource := (entries_of_node? (ne_nil_of_file hk)).trans hk
    have hcontents : (fs.moveNode source target).contents = fs.contents :=
      (moveNode_of_file hsource).2.1
    simp only [counted, hb, Storing.filing, hr] at hrun
    refine ⟨_, target, answer_of_ok hrun, ht, changes_directory hb rfl rfl
      (sameWays_moveNode hk hdir) (fun l hl => ?_) (by rw [hcontents]) (fun j _ => ?_), ?_, ?_⟩
    · simp only [Set.mem_insert_iff, Set.mem_singleton_iff, not_or] at hl
      rw [hheld, if_neg hl.2, if_neg hl.1]
    · rw [FileSystem.content, hcontents]
      rfl
    · exact (hheld source).trans ((if_neg hst).trans (if_pos rfl))
    · exact (hheld target).trans (if_pos rfl)

theorem rename_cases {new : String} {source : Location} {b : Bytes} (n : Nat)
    (hp : place? s name = some source) (hf : fileAt s source = some b)
    (hne : place? s new ≠ some source) :
    Stops n (.rename name new) s ∨
      ∃ t target, (Request.rename name new).answer s = (.ok (), t) ∧
        place? s new = some target ∧ Changes n {source, target} s t ∧
        fileAt t source = none ∧ fileAt t target = some b := by
  rcases call_cases .rename new s with hc | ⟨hr, hc⟩
  · cases hb : s.backend with
    | memory files =>
        right
        rw [place?, hb] at hp hne
        cases hp
        rw [fileAt, hb] at hf
        obtain ⟨p, hp, rfl⟩ := Option.map_eq_some_iff.mp hf
        have hnew : name ≠ new := fun heq => hne (heq ▸ rfl)
        obtain ⟨t, ht⟩ := rename_memory n hb hc hp hnew
        exact ⟨t, [new], ht.1, by rw [place?, hb], ht.2⟩
    | directory fs d =>
        have hplace : place? s new = placeIn fs (Path.join d.path new) := by rw [place?, hb]
        obtain ⟨k, hk⟩ := node?_of_fileAt hb (by rw [hf]; exact Option.some_ne_none b)
        rw [fileAt, hb] at hf
        rw [place?, hb] at hp
        rw [hplace] at hne ⊢
        rw [← hf]
        exact rename_directory n hb hc hp hk hne
  · exact .inl (stops_of_refused n (answer_of_error (bind_of_error hc _)) hr rfl)

theorem rename_refused {new : String} (hr : s.plan.refuses s.clock .rename new = true)
    (old : String) : (Request.rename old new).answer s =
      (.error (.storage (.refused .rename new)), counted s) :=
  answer_of_error (bind_of_error (call_refused hr) _)

theorem openInput_refused (hr : s.plan.refuses s.clock .openFile name = true) :
    (Request.openInput name).answer s = (.error (.storage (.refused .openFile name)), counted s) :=
  answer_of_error (bind_of_error (call_refused hr) _)

theorem warn_spec (n : Nat) (w : Warning) (s : Storage) : ∃ t,
    (Request.warn w).answer s = (.ok (), t) ∧ Changes n ∅ s t :=
  ⟨_, rfl, changes_of_backend rfl rfl⟩

/-- An input is over a file that the storage still holds. -/
def Pinned (p : Tape) (s : Storage) : Prop :=
  ∀ k, p.file = some k → k < fileCount s ∧ s.content k = p.content

theorem Pinned.of_backend {p : Tape} (h : Pinned p s) (hb : t.backend = s.backend) :
    Pinned p t := by
  intro k hk
  rw [fileCount, Storage.content, hb]
  exact h k hk

theorem Pinned.changes {p : Tape} {P : Set Location} (h : Pinned p s) (hn : fileCount s ≤ n)
    (hc : Changes n P s t) : Pinned p t := by
  intro k hk
  obtain ⟨hlt, hcontent⟩ := h k hk
  exact ⟨Nat.lt_of_lt_of_le hlt hc.grown,
    (hc.kept k (Nat.lt_of_lt_of_le hlt hn)).trans hcontent⟩

theorem openInput_memory {files : Files} {p : Packed} (hb : s.backend = .memory files)
    (hc : Storing.call .openFile name s = .ok () (counted s)) (hp : files[name]? = some p) :
    ∃ i q, (Request.openInput name).answer s = (.ok i, counted s) ∧ Over q i ∧
      q.toBytes = p.toBytes ∧ Pinned q (counted s) := by
  have hrun : (Request.openInput name).perform s = _ := bind_of_ok hc _
  rw [get_bind] at hrun
  have hcounted : (counted s).backend = .memory files := hb
  simp only [hcounted, hp] at hrun
  refine ⟨_, ⟨p, none⟩, answer_of_ok hrun, ⟨rfl, rfl⟩, rfl, ?_⟩
  intro k hk
  cases hk

theorem openInput_directory {fs : FileSystem} {d : DirectorySettings} {loc : Location} {k : Nat}
    (hb : s.backend = .directory fs d)
    (hc : Storing.call .openFile name s = .ok () (counted s))
    (hp : placeIn fs (Path.join d.path name) = some loc) (hk : fs.node? loc = some (.file k)) :
    ∃ i, (Request.openInput name).answer s = (.ok i, counted s) ∧
      Over ⟨fs.content k, some k⟩ i ∧ Pinned ⟨fs.content k, some k⟩ (counted s) := by
  have hrun : (Request.openInput name).perform s = _ := bind_of_ok hc _
  rw [get_bind] at hrun
  have hcounted : (counted s).backend = .directory fs d := hb
  have hfind := find_of_placeIn hp
  rw [hk] at hfind
  have hpinned : Pinned ⟨fs.content k, some k⟩ (counted s) := by
    intro j hj
    cases hj
    refine ⟨?_, content_of_directory hb k⟩
    simpa only [fileCount, counted, hb] using number_lt hk
  cases hd : d.memoryMapped with
  | true =>
      simp only [hcounted, hfind, hd] at hrun
      exact ⟨_, answer_of_ok hrun, ⟨rfl, rfl, rfl⟩, hpinned⟩
  | false =>
      simp only [hcounted, hfind, hd] at hrun
      exact ⟨_, answer_of_ok hrun, ⟨rfl, rfl, consistent_of_empty rfl, rfl⟩, hpinned⟩

theorem openInput_cases {loc : Location} {b : Bytes} (n : Nat) (hp : place? s name = some loc)
    (hf : fileAt s loc = some b) :
    Stops n (.openInput name) s ∧ Refusable s .openFile name ∨
      ∃ i p t, (Request.openInput name).answer s = (.ok i, t) ∧ t.backend = s.backend ∧
        t.plan = s.plan ∧ Over p i ∧ p.toBytes = b ∧ Pinned p t := by
  rcases call_cases .openFile name s with hc | ⟨hr, hc⟩
  · right
    cases hb : s.backend with
    | memory files =>
        rw [place?, hb] at hp
        cases hp
        rw [fileAt, hb] at hf
        obtain ⟨q, hq, rfl⟩ := Option.map_eq_some_iff.mp hf
        obtain ⟨i, p, ha, hover, hbytes, hpin⟩ := openInput_memory hb hc hq
        exact ⟨i, p, _, ha, hb, rfl, hover, hbytes, hpin⟩
    | directory fs d =>
        obtain ⟨k, hk⟩ := node?_of_fileAt hb (by rw [hf]; exact Option.some_ne_none b)
        rw [place?, hb] at hp
        simp only [fileAt, hb, heldIn, hk] at hf
        obtain ⟨i, ha, hover, hpin⟩ := openInput_directory hb hc hp hk
        exact ⟨i, _, _, ha, hb, rfl, hover, Option.some.inj hf, hpin⟩
  · exact .inl ⟨stops_of_refused n (answer_of_error (bind_of_error hc _)) hr rfl, hr⟩

end

end Concordance.Proofs.Calls
