import Concordance.Command.Run
import Concordance.Proofs.Directories
import Concordance.Proofs.Pendings

namespace Concordance.Proofs.ReadCommands

open Running Outcomes Directories

def SameFiles (s t : Session) : Prop := t.files = s.files

instance : IsPreorder Session SameFiles where
  refl _ := rfl
  trans _ _ _ h h' := h'.trans h

def SameBackend (s t : Storage) : Prop := t.backend = s.backend

instance : IsPreorder Storage SameBackend where
  refl _ := rfl
  trans _ _ _ h h' := h'.trans h

theorem print_reads (b : Bytes) : Keeps SameFiles (print b) := fun _ => rfl

theorem allow_reads (refusal : Refusals → Option SystemFault) :
    Keeps SameFiles (allow refusal) := by
  refine keeps_get.bind fun s => ?_
  cases refusal s.refusals with
  | some f => exact keeps_throw _
  | none => exact keeps_pure _

theorem openFile_reads (context path : String) : Keeps SameFiles (openFile context path) := by
  refine keeps_get.bind fun s => ?_
  cases s.find path with
  | ok node => exact keeps_pure node
  | error e => exact keeps_throw _

theorem readAll_reads (node : Node) : Keeps SameFiles (readAll node) := by
  cases node with
  | file k => exact (allow_reads _).bind fun _ => keeps_get.bind fun _ => keeps_pure _
  | directory => exact keeps_throw _

theorem openStore_reads (path : String) : Keeps SameFiles (openStore path) :=
  (openFile_reads _ path).bind fun node => (readAll_reads node).bind fun _ => keeps_ofExcept _

theorem dump_reads (store : String) : Keeps SameFiles (dump store) :=
  (openStore_reads store).bind fun _ => (print_reads _).bind fun _ =>
    (keeps_ofExcept _).bind fun _ => keeps_pure _

theorem getValues_reads (store key : String) (all : Bool) :
    Keeps SameFiles (getValues store key all) := by
  refine (openStore_reads store).bind fun v => ?_
  dsimp only
  generalize valuesFound _ _ = found
  refine (print_reads _).bind fun _ => (keeps_ofExcept _).bind fun _ => ?_
  split
  · exact (keeps_throw _).bind fun _ => keeps_pure _
  · exact keeps_pure _

theorem describe_reads (store : String) : Keeps SameFiles (describe store) := by
  refine (openStore_reads store).bind fun v => ?_
  cases BlockStore.View.stats v with
  | ok stats _ => exact keeps_pure _
  | error e _ => exact keeps_throw e

theorem readSettings_reads (config : Option String) : Keeps SameFiles (readSettings config) := by
  cases config with
  | none => exact keeps_pure _
  | some path =>
      refine keeps_get.bind fun s => ?_
      cases s.find path with
      | ok node => exact (readAll_reads node).bind fun _ => keeps_ofExcept _
      | error e => exact keeps_throw _

section

open Analysis (AnalyzerConfig)
open Index (Searcher)

theorem call_reads (c : StorageCall) (name : String) : Keeps SameBackend (Storing.call c name) := by
  intro s
  rcases Calls.call_cases c name s with h | ⟨-, h⟩
  · rw [h]
    rfl
  · rw [h]
    rfl

theorem openInput_reads (name : String) : Keeps SameBackend (Storing.openInput name) := by
  refine (call_reads _ name).bind fun _ => keeps_get.bind fun s => ?_
  cases s.backend with
  | memory files =>
      dsimp only
      split
      · exact keeps_pure _
      · exact keeps_throw _
  | directory fs d =>
      dsimp only
      split
      · exact keeps_throw _
      · exact keeps_pure _
      · exact keeps_pure _
      · exact keeps_throw _
      · exact keeps_pure _

theorem run_call (r : Request) : (Script.call r).run = r.perform := by
  funext s
  simp only [Script.call, Script.run, Request.answer]
  cases r.perform s with
  | ok a t => rfl
  | error e t => rfl

theorem run_ofExcept {α : Type} (x : Except Error α) : (Script.ofExcept x).run = ofExcept x := by
  cases x with
  | ok a => rfl
  | error e => rfl

theorem opening_reads (name : String) (c : AnalyzerConfig) :
    Keeps SameBackend (Searcher.opening name c).run := by
  have hopen : Keeps SameBackend (Script.call (.openInput name)).run := by
    rw [run_call]
    exact openInput_reads name
  simp only [Searcher.opening, Pendings.run_bind, run_ofExcept]
  exact hopen.bind fun i => keeps_ofExcept (Searcher.ofInput i c)

theorem readers_reads (c : AnalyzerConfig) : Keeps SameBackend (Readers.ofFiles c) := by
  rw [Readers.ofFiles, Readers.opening]
  simp only [Pendings.run_bind]
  exact (opening_reads _ c).bind fun _ => (opening_reads _ c).bind fun _ =>
    (opening_reads _ c).bind fun _ => keeps_pure _

theorem ofFiles_reads (c : AnalyzerConfig) : Keeps SameBackend (Catalog.ofFiles c) := by
  refine keeps_get.bind fun s => ?_
  split
  · exact (readers_reads c).bind fun _ => keeps_pure _
  · exact keeps_pure _

theorem searchField_reads (c : Catalog) (f : Field) (query : String) (limit : Nat) :
    Keeps SameBackend (onCatalog c (Serving.searchField f query limit)) := by
  intro s
  rw [onCatalog, Serving.searchField]
  cases c.readers with
  | none => rfl
  | some r =>
      dsimp only
      cases Searcher.search query limit ((r.get f).refresh s.content) with
      | ok hits reader => rfl
      | error e reader => rfl

theorem searching_reads (directory : String) (q : Query) (limit : Nat) (c : AnalyzerConfig) :
    Keeps SameBackend (do
      let c ← Catalog.ofFiles c
      if !c.isReady then throw (.index (.noIndices directory))
      onCatalog c (Serving.searchField q.field q.text limit)) := by
  refine (ofFiles_reads c).bind fun c => ?_
  dsimp only
  split
  · exact (keeps_throw _).bind fun _ => searchField_reads c _ _ limit
  · exact searchField_reads c _ _ limit

end

theorem ofSettings_cases (d : DirectorySettings) (fs : FileSystem) : ∃ fs',
    (fs' = fs ∨ fs.isPresent d.path = false ∧ Grown d.path fs fs') ∧
      ((∃ e, Storage.ofSettings (.directory d) fs = .error e fs') ∨
        Storage.ofSettings (.directory d) fs = .ok (.ofBackend (.directory fs' d)) fs') := by
  have hopen : ∀ fs' : FileSystem, Storage.ofSettings (.directory d) fs =
      (if fs'.isDirectory d.path then .ok (.ofBackend (.directory fs' d)) fs'
        else .error (.storage (.notDirectory d.path)) fs') →
      (∃ e, Storage.ofSettings (.directory d) fs = .error e fs') ∨
        Storage.ofSettings (.directory d) fs = .ok (.ofBackend (.directory fs' d)) fs' := by
    intro fs' h
    rw [h]
    split
    · exact .inr rfl
    · exact .inl ⟨_, rfl⟩
  cases hpresent : fs.isPresent d.path with
  | true =>
      refine ⟨fs, .inl rfl, hopen fs ?_⟩
      simp only [Storage.ofSettings, hpresent]
      rfl
  | false =>
      have hgrown := makeDirectories_grows d.path fs
      cases hmake : Filing.makeDirectories d.path fs with
      | ok a fs' =>
          rw [hmake] at hgrown
          refine ⟨fs', .inr ⟨rfl, hgrown⟩, hopen fs' ?_⟩
          simp only [Storage.ofSettings, hpresent, hmake]
          rfl
      | error e fs' =>
          rw [hmake] at hgrown
          refine ⟨fs', .inr ⟨rfl, hgrown⟩, .inl ⟨.storage (.directoryFailed e), ?_⟩⟩
          simp only [Storage.ofSettings, hpresent, hmake]
          rfl

theorem storing_cases {α : Type} {m : Storing α} (h : Keeps SameBackend m) (d : DirectorySettings)
    (s : Session) : (stateOf (storing d m s)).files = s.files ∨
      s.files.isPresent d.path = false ∧ Grown d.path s.files (stateOf (storing d m s)).files := by
  obtain ⟨fs, hfs, ⟨e, hfail⟩ | hok⟩ := ofSettings_cases d s.files
  · rw [storing, hfail]
    exact hfs
  · have hm := h (.ofBackend (.directory fs d))
    rw [storing, hok]
    dsimp only
    cases hrun : m (.ofBackend (.directory fs d)) with
    | ok a t =>
        rw [hrun] at hm
        simp only [stateOf, show t.backend = .directory fs d from hm]
        exact hfs
    | error e t =>
        rw [hrun] at hm
        simp only [stateOf, show t.backend = .directory fs d from hm]
        exact hfs

/-- Commands that read leave the file system as it is, whatever comes of them. Of this a search is an
exception only if it can read its settings and nothing is at the path of the directory that it is to
search: then that one is made with those above it. -/
theorem command_reads (s : Session) :
    (∀ store, (stateOf (command (.dump store) s)).files = s.files) ∧
    (∀ store key all, (stateOf (command (.get store key all) s)).files = s.files) ∧
    (∀ store, (stateOf (command (.stats store) s)).files = s.files) ∧
    ∀ directory query limit config memoryMapped,
      let t := stateOf (command (.search directory query limit config memoryMapped) s)
      t.files = s.files ∨
        (∃ settings u, readSettings config s = .ok settings u) ∧
          s.files.isPresent directory = false ∧ Grown directory s.files t.files := by
  refine ⟨fun store => dump_reads store s, fun store key all => getValues_reads store key all s,
    fun store => describe_reads store s, ?_⟩
  intro directory query limit config memoryMapped
  have hread := readSettings_reads config s
  cases hsettings : readSettings config s with
  | error e u =>
      rw [hsettings] at hread
      left
      rw [command, searchIndices, bind_of_error hsettings]
      exact hread
  | ok settings u =>
      rw [hsettings] at hread
      have hsearch := storing_cases
        (searching_reads directory (Query.ofString query) limit settings.analyzer)
        (directorySettings settings directory memoryMapped) u
      rw [show u.files = s.files from hread] at hsearch
      rw [command, searchIndices, bind_of_ok hsettings, stateOf_bind_pure]
      exact hsearch.imp_right fun h => ⟨⟨settings, u, rfl⟩, h⟩

/-- Where there is nothing to be searched, a directory is left. -/
theorem search_makes : ∃ e t,
    command (.search "d" "a" 10 none false) (.start (.empty []) []) = .error e t ∧
      (FileSystem.empty []).node? ["d"] = none ∧ t.files.node? ["d"] = some .directory := by
  refine ⟨.index (.noIndices "d"), _, rfl, ?_, ?_⟩
  · decide
  · rfl

end Concordance.Proofs.ReadCommands
