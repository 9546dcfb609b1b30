import Concordance.FileSystem.Basic
import Concordance.Settings
import Concordance.Storage.Fault
import Concordance.Storage.Input
import Concordance.Storage.Output

namespace Concordance

abbrev Files := Std.ExtTreeMap String Packed

inductive Backend
  | memory (files : Files)
  | directory (fileSystem : FileSystem) (settings : DirectorySettings)

/-- Files by name, held in memory or in a directory. In memory a name shows what was written to it
when the output is closed; in a directory every flush shows. -/
structure Storage where
  backend : Backend
  plan : FaultPlan
  clock : Nat
  warnings : List Warning

abbrev Storing (α : Type) := EStateM Error Storage α

inductive Sink
  | memory (o : HeldOutput)
  | file (number : Nat) (o : GatheringOutput)

structure Output where
  name : String
  sink : Sink
  refuses : Nat → Bool
  writes : Nat

abbrev Writing (α : Type) := EStateM Error (Output × Storage) α

namespace Storage

def ofBackend (b : Backend) : Storage := ⟨b, .none, 0, []⟩

/-- The storage that settings describe. A directory is made if there is none. -/
def ofSettings : StorageSettings → EStateM Error FileSystem Storage
  | .memory _ => return ofBackend (.memory ∅)
  | .directory d => fun fs =>
      let (made, fs) : Except SystemFault Unit × FileSystem :=
        if fs.isPresent d.path then (.ok (), fs)
        else match Filing.makeDirectories d.path fs with
          | .ok _ fs => (.ok (), fs)
          | .error e fs => (.error e, fs)
      match made with
      | .error e => .error (.storage (.directoryFailed e)) fs
      | .ok _ =>
          if fs.isDirectory d.path then .ok (ofBackend (.directory fs d)) fs
          else .error (.storage (.notDirectory d.path)) fs

/-- The length that a directory shows when it is opened like a file. -/
def directorySize : Nat := 4096

variable (s : Storage)

def content (number : Nat) : Packed :=
  match s.backend with
  | .memory _ => .empty
  | .directory fs _ => fs.content number

def setContent (number : Nat) (p : Packed) : Storage :=
  match s.backend with
  | .memory _ => s
  | .directory fs d => { s with backend := .directory (fs.setContent number p) d }

def file? (name : String) : Option Bytes :=
  match s.backend with
  | .memory files => files[name]?.map Packed.toBytes
  | .directory fs d => (fs.read (Path.join d.path name)).toOption

def isPresent (name : String) : Bool :=
  match s.backend with
  | .memory files => files.contains name
  | .directory fs d => fs.isPresent (Path.join d.path name)

end Storage

namespace Storing

def call (c : StorageCall) (name : String) : Storing Unit := do
  let s ← get
  set { s with clock := s.clock + 1 }
  if s.plan.refuses s.clock c name then throw (.storage (.refused c name))

def warn (w : Warning) : Storing Unit := modify fun s => { s with warnings := w :: s.warnings }

def notFound (name : String) (f : SystemFault) : Error :=
  if f = .noEntry then .storage (.fileNotFound name) else .storage (.system f)

def filing {α : Type} (fault : SystemFault → Error) (fs : FileSystem) (d : DirectorySettings)
    (m : Filing α) : Storing α := fun s =>
  match m fs with
  | .ok a fs => .ok a { s with backend := .directory fs d }
  | .error e fs => .error (fault e) { s with backend := .directory fs d }

def attempt {α : Type} (m : Storing α) : Storing (Except Error α) := fun s =>
  match m s with
  | .ok a s => .ok (.ok a) s
  | .error e s => .ok (.error e) s

def isPresent (name : String) : Storing Bool := return (← get).isPresent name

def fileNames : Storing (List String) := do
  match (← get).backend with
  | .memory files => return files.keys.mergeSort fun m n => m ≤ n
  | .directory fs d =>
      match fs.fileNames d.path with
      | .ok names => return names
      | .error e => throw (.storage (.system e))

def fileSize (name : String) : Storing Nat := do
  match (← get).backend with
  | .memory files =>
      match files[name]? with
      | some p => return p.size
      | none => throw (.storage (.fileNotFound name))
  | .directory fs d =>
      match fs.find (Path.join d.path name) with
      | .ok (_, .file k) => return (fs.content k).size
      | .ok (_, .directory) => return Storage.directorySize
      | .error e => throw (notFound name e)

def openInput (name : String) : Storing Input := do
  call .openFile name
  match (← get).backend with
  | .memory files =>
      match files[name]? with
      | some p => return .snapshot (.opened p)
      | none => throw (.storage (.fileNotFound name))
  | .directory fs d =>
      match fs.find (Path.join d.path name), d.memoryMapped with
      | .error e, _ => throw (notFound name e)
      | .ok (_, .file k), true => return .mapped k (.opened (fs.content k))
      | .ok (_, .file k), false =>
          return .buffered (.file k) (.opened d.bufferSize (fs.content k))
      | .ok (_, .directory), true => throw (.storage (.mapFailed name .noDevice))
      | .ok (_, .directory), false =>
          return .buffered .directory (.opened d.bufferSize (Packed.extendTo Storage.directorySize .empty))

/-- Open a file for writing from its beginning. In memory it keeps its bytes until the output is
closed. -/
def createOutput (name : String) : Storing Output := do
  let clock := (← get).clock
  call .create name
  let s ← get
  let refuses := s.plan.refusesWrite clock name
  match s.backend with
  | .memory files =>
      if !files.contains name then set { s with backend := .memory (files.insert name .empty) }
      return ⟨name, .memory .opened, refuses, 0⟩
  | .directory fs d =>
      let k ← filing (.storage ∘ .system) fs d (Filing.create (Path.join d.path name))
      return ⟨name, .file k (.opened d.bufferSize d.syncWrites), refuses, 0⟩

/-- Delete a file. That there is none is no failure. -/
def delete (name : String) : Storing Unit := do
  call .delete name
  match (← get).backend with
  | .memory files => modify fun s => { s with backend := .memory (files.erase name) }
  | .directory fs d =>
      if fs.isPresent (Path.join d.path name) then
        filing (.storage ∘ .deleteFailed) fs d (Filing.remove (Path.join d.path name))

def rename (old new : String) : Storing Unit := do
  call .rename new
  match (← get).backend with
  | .memory files =>
      match files[old]? with
      | none => throw (.storage (.fileNotFound old))
      | some p => modify fun s => { s with backend := .memory ((files.erase old).insert new p) }
  | .directory fs d =>
      filing (.storage ∘ .renameFailed) fs d
        (Filing.rename (Path.join d.path old) (Path.join d.path new))

def temporaryName (stem : String) (n : Nat) : String := s!"{stem}_{n}.tmp"

def temporaryLimit : Nat := 10000

def createTemporary (stem : String) : Storing (String × Output) := do
  let s ← get
  match (List.range temporaryLimit).find? fun n => !s.isPresent (temporaryName stem n) with
  | none => throw (.storage (.noTemporaryName stem))
  | some n =>
      let name := temporaryName stem n
      return (name, ← createOutput name)

end Storing

namespace Output

def position (o : Output) : Nat :=
  match o.sink with
  | .memory m => m.position
  | .file _ g => g.position

end Output

namespace Writing

def write (b : Bytes) : Writing Unit := do
  let (o, s) ← get
  if b ≠ [] then
    if o.refuses o.writes then throw (.io .writeRefused)
    match o.sink with
    | .memory m =>
        match m.write b with
        | .ok m => set ({ o with sink := .memory m, writes := o.writes + 1 }, s)
        | .error f => throw (.io f)
    | .file k g =>
        let (g, content) := g.write b (s.content k)
        set ({ o with sink := .file k g, writes := o.writes + 1 }, s.setContent k content)

def seek (goal : Seek) : Writing Unit := do
  let (o, s) ← get
  match o.sink with
  | .memory m =>
      match m.seek goal with
      | .ok m => set ({ o with sink := .memory m }, s)
      | .error f => throw (.io f)
  | .file k g =>
      let (moved, g, content) := g.seek goal (s.content k)
      set ({ o with sink := .file k g }, s.setContent k content)
      match moved with
      | .ok _ => return
      | .error f => throw (.io f)

def flush : Writing Unit := modify fun (o, s) =>
  match o.sink with
  | .memory _ => (o, s)
  | .file k g =>
      let (g, content) := g.flush (s.content k)
      ({ o with sink := .file k g }, s.setContent k content)

/-- Show under the name of the output what was written. In memory this happens once. -/
def close : Writing Unit := do
  let (o, s) ← get
  match o.sink, s.backend with
  | .memory m, .memory files =>
      if !m.closed then
        set ({ o with sink := .memory { m with closed := true, buffer := .empty } },
          { s with backend := .memory (files.insert o.name m.buffer) })
  | _, _ => flush

end Writing

namespace Storing

def onOutput {α : Type} (o : Output) (m : Writing α) : Storing (Except Error α × Output) := fun s =>
  match m (o, s) with
  | .ok a (o, s) => .ok (.ok a, o) s
  | .error e (o, s) => .ok (.error e, o) s

/-- Give up an output, which shows what was written as closing it does. -/
def dropOutput (o : Output) : Storing Unit := do
  let _ ← onOutput o Writing.close

def load (name : String) : Storing Bytes := do
  let i ← openInput name
  ofExcept (i.read i.size).1

def store (name : String) (b : Bytes) : Storing Unit := do
  let o ← createOutput name
  let (written, o) ← onOutput o do
    Writing.write b
    Writing.close
  dropOutput o
  ofExcept written

end Storing

end Concordance
