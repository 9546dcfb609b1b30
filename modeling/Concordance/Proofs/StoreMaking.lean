import Concordance.Command.Run
import Concordance.Proofs.FileActions
import Concordance.Proofs.StoreImage

namespace Concordance.Proofs.StoreMaking

open FileSystem Outcomes Pieces Places FileActions Running
open BlockStore (ofDump)

/-- Nothing changes but what lies at some places and what the file of a number holds. -/
structure Kept (k : Nat) (places : List Location) (fs fs' : FileSystem) : Prop where
  ways : SameWays fs fs'
  nodes : ∀ l ∉ places, fs'.node? l = fs.node? l
  contents : ∀ j, j ≠ k → fs'.content j = fs.content j

section

variable {fs fs' fs'' : FileSystem} {k : Nat} {P Q : List Location} {source target : Location}

theorem SameWays.trans (h : SameWays fs fs') (h' : SameWays fs' fs'') : SameWays fs fs'' :=
  ⟨h'.workingDirectory.trans h.workingDirectory,
    fun l => (h'.directory_iff l).trans (h.directory_iff l)⟩

theorem Kept.trans (h : Kept k P fs fs') (h' : Kept k Q fs' fs'') (hsub : P ⊆ Q) :
    Kept k Q fs fs'' where
  ways := SameWays.trans h.ways h'.ways
  nodes l hl := (h'.nodes l hl).trans (h.nodes l fun hmem => hl (hsub hmem))
  contents j hj := (h'.contents j hj).trans (h.contents j hj)

theorem kept_setContent (P : List Location) (k : Nat) (p : Packed) (fs : FileSystem) :
    Kept k P fs (fs.setContent k p) := by
  refine ⟨sameWays_setContent k p, fun _ _ => rfl, ?_⟩
  intro j hj
  rw [content_setContent, if_neg fun h => hj h.1.symm]

theorem kept_addFile (hnone : fs.node? source = none) :
    Kept fs.contents.size [source] fs (fs.addFile source).2 := by
  refine ⟨sameWays_addFile hnone, ?_, fun j _ => content_addFile j⟩
  intro l hl
  rw [node?_addFile (ne_nil_of_none hnone), if_neg (by simpa using hl)]

def Shared (fs : FileSystem) (l l' : Location) : Prop :=
  ∃ k, fs.node? l = some (.file k) ∧ fs.node? l' = some (.file k)

/-- Nothing changes but at some places, unless it is the file of another place under a further
name. -/
structure Spared (places : List Location) (source : Location) (fs fs' : FileSystem) : Prop where
  ways : SameWays fs fs'
  held : ∀ l ∉ places, ¬ Shared fs l source → heldIn fs' l = heldIn fs l

structure Opened (fs fs' : FileSystem) (source : Location) (k : Nat) : Prop where
  kept : Kept k [source] fs fs'
  file : fs'.node? source = some (.file k)
  empty : fs'.content k = .empty
  before : (fs.node? source = none ∧ ∀ l, fs.node? l ≠ some (.file k)) ∨
    fs.node? source = some (.file k)

theorem node?_ne_size (fs : FileSystem) (l : Location) :
    fs.node? l ≠ some (.file fs.contents.size) := fun h => Nat.lt_irrefl _ (number_lt h)

theorem create_opened (path : String) (fs : FileSystem) : Fails (Filing.create path) fs ∨
    ∃ source k fs', placeIn fs path = some source ∧ Filing.create path fs = .ok k fs' ∧
      Opened fs fs' source k := by
  rcases create_spec path fs with hfail | ⟨source, hplace, ⟨hnone, hok⟩ | ⟨k, hfile, hok⟩⟩
  · exact .inl hfail
  · have hbefore := And.intro hnone (node?_ne_size fs)
    refine .inr ⟨source, _, _, hplace, hok, kept_addFile hnone, ?_, ?_, .inl hbefore⟩
    · rw [node?_addFile (ne_nil_of_none hnone), if_pos rfl]
      rfl
    · exact (content_addFile _).trans (content_size fs)
  · exact .inr ⟨source, k, _, hplace, hok, kept_setContent _ k .empty fs, hfile,
      content_setContent_self hfile .empty, .inr hfile⟩

theorem Kept.heldIn (h : Kept k P fs fs') {l : Location} (hl : l ∉ P)
    (hk : fs.node? l ≠ some (.file k)) : heldIn fs' l = heldIn fs l := by
  rw [Places.heldIn, Places.heldIn, h.nodes l hl]
  cases hnode : fs.node? l with
  | none => rfl
  | some node =>
      cases node with
      | directory => rfl
      | file j =>
          have hj : j ≠ k := by
            rintro rfl
            exact hk hnode
          simp only [h.contents j hj]

/-- After an opening the file of the number lies nowhere else, unless it did so before. -/
theorem Opened.spared (h : Opened fs fs' source k) (hkept : Kept k P fs fs'') :
    Spared P source fs fs'' := by
  refine ⟨hkept.ways, ?_⟩
  intro l hl hshared
  apply hkept.heldIn hl
  intro hk
  rcases h.before with ⟨-, hnew⟩ | hold
  · exact hnew l hk
  · exact hshared ⟨k, hk, hold⟩

end

section

variable {store temporary n : String} {fs : FileSystem} {source : Location}

end

section

variable {s u : Session} {path dump store temporary : String} {source : Location} {k : Nat}

def Found (s : Session) (path : String) : Option Node → Prop
  | none => Path.isHyphen path = true
  | some node => Path.isHyphen path = false ∧ ∃ loc, s.files.find path = .ok (loc, node)

theorem openInput_cases (path : String) (s : Session) :
    (∃ e, openInput path s = .error e s) ∨ ∃ input, openInput path s = .ok input s ∧
      Found s path input := by
  rw [openInput]
  cases hhyphen : Path.isHyphen path with
  | true => exact .inr ⟨none, rfl, hhyphen⟩
  | false =>
      have hopen : (∃ e, openFile "cannot open" path s = .error e s) ∨
          ∃ node, openFile "cannot open" path s = .ok node s ∧ s.find path = .ok node := by
        rw [openFile, get_bind]
        cases hfind : s.find path with
        | error e => exact .inl ⟨_, rfl⟩
        | ok node => exact .inr ⟨node, rfl, rfl⟩
      rw [if_neg Bool.false_ne_true]
      change (∃ e, EStateM.map some (openFile "cannot open" path) s = _) ∨
        ∃ input, EStateM.map some (openFile "cannot open" path) s = _ ∧ _
      rcases hopen with ⟨e, hopen⟩ | ⟨node, hopen, hfind⟩
      · exact .inl ⟨e, by rw [EStateM.map, hopen]⟩
      · refine .inr ⟨some node, by rw [EStateM.map, hopen], hhyphen, ?_⟩
        rw [Session.find] at hfind
        split at hfind
        · cases hfind
        · cases hfound : s.files.find path with
          | error e =>
              rw [hfound] at hfind
              cases hfind
          | ok found =>
              rw [hfound] at hfind
              cases hfind
              exact ⟨found.1, rfl⟩

theorem allow_cases (refusal : Refusals → Option SystemFault) (s : Session) :
    (∃ e, allow refusal s = .error e s) ∨ allow refusal s = .ok () s := by
  rw [allow, get_bind]
  cases refusal s.refusals with
  | some f => exact .inl ⟨_, rfl⟩
  | none => exact .inr rfl

theorem filing_of_ok {α : Type} {m : Filing α} {a : α} {fs : FileSystem}
    (h : m s.files = .ok a fs) : filing systemError m s = .ok a { s with files := fs } := by
  rw [filing, h]

theorem filing_of_fails {α : Type} {m : Filing α} (h : Fails m s.files) :
    ∃ e, filing systemError m s = .error e s := by
  obtain ⟨e, h⟩ := h
  exact ⟨systemError e, by rw [filing, h]⟩

theorem create_cases (path : String) (s : Session) :
    (∃ e, create path s = .error e s) ∨ ∃ source k fs', placeIn s.files path = some source ∧
      create path s = .ok k { s with files := fs' } ∧ Opened s.files fs' source k := by
  rcases allow_cases Refusals.toCreate s with ⟨e, hrefused⟩ | hallowed
  · exact .inl ⟨e, bind_of_error hrefused _⟩
  · rw [create, bind_of_ok hallowed]
    rcases create_opened path s.files with hfails | ⟨source, k, fs', hplace, hok, hopened⟩
    · exact .inl (filing_of_fails hfails)
    · exact .inr ⟨source, k, fs', hplace, filing_of_ok hok, hopened⟩

theorem rename_cases (hp : placeIn s.files temporary = some source)
    (hk : s.files.node? source = some (.file k)) (hne : placeIn s.files store ≠ some source) :
    (∃ e, rename temporary store s = .error e s) ∨
      ∃ target, placeIn s.files store = some target ∧ s.files.node? target ≠ some .directory ∧
        rename temporary store s = .ok () { s with files := s.files.moveNode source target } := by
  rcases allow_cases Refusals.toRename s with ⟨e, hrefused⟩ | hallowed
  · exact .inl ⟨e, bind_of_error hrefused _⟩
  · rw [rename, bind_of_ok hallowed]
    rcases FileActions.rename_cases hp hk hne with hfails | ⟨target, htarget, hnode, hok⟩
    · exact .inl (filing_of_fails hfails)
    · exact .inr ⟨target, htarget, hnode, filing_of_ok hok⟩

end

def original (s : Session) (dump : String) : Option Bytes :=
  if Path.isHyphen dump then some s.input else (s.files.read dump).toOption

def Complete (s : Session) (dump : String) (b : Bytes) (summary : BlockStore.Summary) : Prop :=
  ∃ input, original s dump = some input ∧ ofDump input = .ok (b, summary)

def SiblingAt (store : String) (fs : FileSystem) (source : Location) : Prop :=
  ∃ temporary, temporarySibling store = .ok temporary ∧ placeIn fs temporary = some source

def Unchanged (fs fs' : FileSystem) : Prop :=
  SameWays fs fs' ∧ ∀ l, heldIn fs' l = heldIn fs l

/-- The store is at its place, and nothing is at that of its temporary sibling. -/
structure Delivered (dump store : String) (s : Session) (report : Report) (t : Session)
    (source target : Location) : Prop where
  sibling : SiblingAt store s.files source
  place : placeIn s.files store = some target
  complete : ∃ b summary, Complete s dump b summary ∧ report = .built store summary ∧
    heldIn t.files target = some b
  cleared : t.files.node? source = none
  rest : Spared [source, target] source s.files t.files

/-- A file that lay under the temporary name is gone. -/
structure Cleared (store : String) (s t : Session) (source : Location) : Prop where
  sibling : SiblingAt store s.files source
  before : heldIn s.files source ≠ none
  cleared : t.files.node? source = none
  rest : Spared [source] source s.files t.files

/-- The store is complete but cannot be moved to its place, so that it stays under the temporary
name. -/
structure Stranded (dump store : String) (s : Session) (e : Error) (t : Session)
    (source : Location) : Prop where
  sibling : SiblingAt store s.files source
  complete : ∃ b summary, Complete s dump b summary ∧ heldIn t.files source = some b
  refused : ∃ temporary, temporarySibling store = .ok temporary ∧
    rename temporary store t = .error e t
  rest : Spared [source] source s.files t.files

def Ends (dump store : String) (s : Session) : EStateM.Result Error Session Report → Prop
  | .ok report t => ∃ source target, Delivered dump store s report t source target
  | .error e t => Unchanged s.files t.files ∨ ∃ source, Cleared store s t source ∨
      Stranded dump store s e t source

section

variable {s : Session} {fs : FileSystem} {dump store : String} {source : Location} {k : Nat}
  {input : Option Node}

end

def emptyDump : Bytes := [0x0A]

def blocked : Session :=
  let fs := ((FileSystem.empty []).addFile ["dump"]).2
  .start ((fs.setContent 0 (.ofBytes emptyDump)).addDirectory ["store"]) []

def opened : Session := { blocked with files := (blocked.files.addFile ["store.tmp"]).2 }

end Concordance.Proofs.StoreMaking
