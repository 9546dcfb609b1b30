import Concordance.BlockStore.Dump
import Concordance.Command.Report

namespace Concordance

/-- What the system refuses, whatever the files are: a disk is full, or a right is missing. Of what
is to be written some bytes may get through. -/
structure Refusals where
  toOpen : Option SystemFault := none
  toCreate : Option SystemFault := none
  toRead : Option SystemFault := none
  toWrite : Option (Nat × SystemFault) := none
  toRename : Option SystemFault := none

/-- What commands run on. A command that fails has done what it did before: its output stays, and so
do the files, as far as it does not clear them up. -/
structure Session where
  files : FileSystem
  input : Bytes
  output : Bytes
  warnings : List Warning
  refusals : Refusals := {}

abbrev Running (α : Type) := EStateM Error Session α

namespace Session

def start (files : FileSystem) (input : Bytes) : Session := ⟨files, input, [], [], {}⟩

def find (s : Session) (path : String) : Except SystemFault Node :=
  match s.refusals.toOpen with
  | some f => .error f
  | none => (·.2) <$> s.files.find path

end Session

namespace Running

def print (b : Bytes) : Running Unit := modify fun s => { s with output := s.output ++ b }

def filing {α : Type} (fault : SystemFault → Error) (m : Filing α) : Running α := fun s =>
  match m s.files with
  | .ok a fs => .ok a { s with files := fs }
  | .error e fs => .error (fault e) { s with files := fs }

def systemError (f : SystemFault) : Error := .io (.system f)

def allow (refusal : Refusals → Option SystemFault) : Running Unit := do
  match refusal (← get).refusals with
  | some f => throw (systemError f)
  | none => return

def openFile (context path : String) : Running Node := do
  match (← get).find path with
  | .ok node => return node
  | .error e => throw (.within [s!"{context} {path}"] (.system e))

def readAll : Node → Running Bytes
  | .file k => do
      allow Refusals.toRead
      return ((← get).files.content k).toBytes
  | .directory => throw (systemError .isDirectory)

/-- The file that a path names, or the input of the session for a hyphen. -/
def openInput (path : String) : Running (Option Node) :=
  if Path.isHyphen path then return none else some <$> openFile "cannot open" path

def readInput : Option Node → Running Bytes
  | none => do
      allow Refusals.toRead
      return (← get).input
  | some node => readAll node

def openStore (path : String) : Running BlockStore.View := do
  ofExcept (BlockStore.View.ofBytes (← readAll (← openFile "cannot open store" path)))

def temporarySibling (path : String) : Except Error String :=
  match Path.fileName? path with
  | some n => .ok (Path.withFileName path (n ++ ".tmp"))
  | none => .error (.argument (.notFilePath path))

def create (path : String) : Running Nat := do
  allow Refusals.toCreate
  filing systemError (Filing.create path)

def write (file : Nat) (b : Bytes) : Running Unit := do
  match (← get).refusals.toWrite with
  | none => modify fun s => { s with files := s.files.setContent file (.ofBytes b) }
  | some (n, f) =>
      modify fun s => { s with files := s.files.setContent file (.ofBytes (b.take n)) }
      throw (systemError f)

def rename (old new : String) : Running Unit := do
  allow Refusals.toRename
  filing systemError (Filing.rename old new)

def build (input : Option Node) (file : Nat) : Running BlockStore.Summary := do
  let (b, summary) ← ofExcept ((BlockStore.ofDump (← readInput input)).mapError .format)
  write file b
  return summary

def discard (path : String) : Running Unit :=
  tryCatch (filing systemError (Filing.remove path)) fun
    | .io (.system f) =>
        modify fun s => { s with warnings := .unfinishedStoreLeft path f :: s.warnings }
    | _ => return

/-- Write the store of a dump to the file of a path, which is removed if that fails. -/
def buildOrDiscard (input : Option Node) (file : Nat) (path : String) :
    Running BlockStore.Summary :=
  tryCatch (build input file) fun e => do
    discard path
    throw e

/-- Build a store from a dump beside its place, and move it there when it is complete. -/
def make (dump store : String) : Running Report := do
  let input ← openInput dump
  let temporary ← ofExcept (temporarySibling store)
  let file ← create temporary
  let built ← buildOrDiscard input file temporary
  rename temporary store
  return .built store built

def dump (store : String) : Running Report := do
  let (out, dumped, _) := (← openStore store).dump
  print out
  let _ ← ofExcept dumped
  return .silent

def valuesFound : Nat → BlockStore.View → List Bytes × Except Error Unit
  | 0, _ => ([], .ok ())
  | n + 1, v =>
      match BlockStore.View.findNext v with
      | .ok none _ => ([], .ok ())
      | .ok (some value) v =>
          let (rest, ended) := valuesFound n v
          (value :: rest, ended)
      | .error e _ => ([], .error e)

def getValues (store key : String) (all : Bool) : Running Report := do
  let v := (← openStore store).findStart (Bytes.ofString key)
  let slots := (v.tableOf (KeyHash.hash (Bytes.ofString key))).slots
  let (values, ended) := valuesFound (if all then slots + 1 else 1) v
  print (values.flatMap (· ++ [0x0A]))
  ofExcept ended
  if values = [] then throw (.argument (.keyNotFound key))
  return .silent

def describe (store : String) : Running Report := do
  match BlockStore.View.stats (← openStore store) with
  | .ok stats _ => return .described store stats
  | .error e _ => throw e

def readSettings : Option String → Running Settings
  | none => return {}
  | some path => do
      match (← get).find path with
      | .ok node => ofExcept (Settings.ofFile (← readAll node))
      | .error e => throw (systemError e)

/-- The settings of a storage in a directory, which keep what else is set for directories. -/
def directorySettings (s : Settings) (path : String) (memoryMapped : Bool) : DirectorySettings :=
  let d : DirectorySettings :=
    match s.storage with
    | .directory d => d
    | .memory _ => { path }
  { d with path, memoryMapped := d.memoryMapped || memoryMapped }

def storing {α : Type} (d : DirectorySettings) (m : Storing α) : Running α := fun s =>
  match Storage.ofSettings (.directory d) s.files with
  | .error e fs => .error e { s with files := fs }
  | .ok storage fs =>
      let after (t : Storage) : Session :=
        { s with
          files := match t.backend with
            | .directory fs _ => fs
            | .memory _ => fs
          warnings := t.warnings ++ s.warnings }
      match m storage with
      | .ok a t => .ok a (after t)
      | .error e t => .error e (after t)

def onCatalog {α : Type} (c : Catalog) (m : Serving α) : Storing α := fun s =>
  match m (c, s) with
  | .ok a (_, s) => .ok a s
  | .error e (_, s) => .error e s

def buildIndices (documents directory : String) (config : Option String) : Running Report := do
  let settings ← readSettings config
  let ds ← ofExcept (Document.load (← readInput (← openInput documents)))
  let summary ← storing (directorySettings settings directory false)
    (onCatalog (.ofConfig settings.analyzer) (Serving.update ds))
  return .indexed directory summary

def searchIndices (directory query : String) (limit : Nat) (config : Option String)
    (memoryMapped : Bool) : Running Report := do
  let settings ← readSettings config
  let q := Query.ofString query
  let hits ← storing (directorySettings settings directory memoryMapped) do
    let c ← Catalog.ofFiles settings.analyzer
    if !c.isReady then throw (.index (.noIndices directory))
    onCatalog c (Serving.searchField q.field q.text limit)
  return .found query q.field hits

def command : Command → Running Report
  | .make d s => make d s
  | .dump s => dump s
  | .get s key all => getValues s key all
  | .stats s => describe s
  | .index ds directory config => buildIndices ds directory config
  | .search directory query limit config memoryMapped =>
      searchIndices directory query limit config memoryMapped

def arguments (milliseconds : Nat) (a : Arguments) : Running Unit := do
  let r ← command a.command
  print (Bytes.ofString (r.text a milliseconds))

end Running

end Concordance
