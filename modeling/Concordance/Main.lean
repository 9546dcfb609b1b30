import Concordance.Command.Run

namespace Concordance

/-- The paths that a command reads or writes, and the directories of which it uses all files. -/
def Command.reach : Command → List String × List String
  | .make d s => ([d, s] ++ (Running.temporarySibling s).toOption.toList, [])
  | .dump s | .get s _ _ | .stats s => ([s], [])
  | .index d directory c => (d :: c.toList, [directory])
  | .search directory _ _ c _ => (c.toList, [directory])

def Command.readsInput : Command → Bool
  | .make d _ | .index d _ _ => Path.isHyphen d
  | _ => false

def onDisk (loc : Location) := do
  return (← IO.currentDir) / ("/" ++ Text.joinWith '/' loc.reverse)

def takeOver (fs : FileSystem) (loc : Location) : IO FileSystem := do
  if (fs.node? loc).isSome then return fs
  let path ← onDisk loc
  if ← path.isDir then return fs.addDirectory loc
  if ← path.pathExists then
    let b ← IO.FS.readBinFile path
    let (k, fs) := fs.addFile loc
    return fs.setContent k b
  return fs

def takeOverPath (fs : FileSystem) (s : String) : IO (FileSystem × Location) := do
  let mut fs := fs
  let mut loc := if Path.isAbsolute s then [] else fs.workingDirectory
  for n in Path.namesOf s do
    match PathStep.ofName n with
    | .here => continue
    | .up => loc := loc.tail
    | .name n =>
        loc := n :: loc
        fs ← takeOver fs loc
  return (fs, loc)

def takeOverDirectory (fs : FileSystem) (s : String) : IO FileSystem := do
  let (fs, loc) ← takeOverPath fs s
  let mut fs := fs
  if fs.node? loc = some .directory then
    for entry in ← (← onDisk loc).readDir do
      fs ← takeOver fs (entry.fileName :: loc)
  return fs

def filesOnDisk (c : Command) : IO FileSystem := do
  let here := (Path.namesOf (← IO.currentDir).toString).reverse
  let mut fs := FileSystem.empty here
  for path in c.reach.1 do
    fs := (← takeOverPath fs path).1
  for path in c.reach.2 do
    fs ← takeOverDirectory fs path
  return fs

/-- Put bytes in the place of a file once all of them are written. -/
def replaceOnDisk (loc : Location) (p : Packed) : IO Unit := do
  let path ← onDisk loc
  let partly := path.addExtension "part"
  IO.FS.writeBinFile partly p
  IO.FS.rename partly path

def bringToDisk (before after : FileSystem) : IO Unit := do
  for (loc, node) in after.entries.toList do
    if node = .directory ∧ before.node? loc = none then IO.FS.createDirAll (← onDisk loc)
  for (loc, node) in after.entries.toList do
    match node, before.node? loc with
    | .file k, some (.file j) =>
        if after.content k ≠ before.content j then replaceOnDisk loc (after.content k)
    | .file k, _ => replaceOnDisk loc (after.content k)
    | .directory, _ => continue
  for (loc, _) in before.entries.toList do
    if after.node? loc = none then IO.FS.removeFile (← onDisk loc)

partial def readInput (stream : IO.FS.Stream) (before : ByteArray) : IO ByteArray := do
  let block ← stream.read 65536
  if block.isEmpty then return before else readInput stream (before ++ block)

def usageLines : List String :=
  ["Usage: concordance [-v...] [-q] [-f human|json] [--pretty] COMMAND", "",
    "make DUMP STORE                  build a block store from a dump",
    "dump STORE                       print a block store as a dump",
    "get STORE KEY [-a]               print the values of a key",
    "stats STORE                      describe a block store",
    "index DOCUMENTS DIR [-c CONFIG]  build the indices of a directory",
    "search DIR QUERY [-l LIMIT] [-c CONFIG] [--mmap]"]

def usageText : String := String.join (usageLines.map (· ++ "\n"))

def runProgram (a : Arguments) : IO UInt32 := do
  let before ← filesOnDisk a.command
  let input ← if a.command.readsInput then readInput (← IO.getStdin) .empty else pure .empty
  let started ← IO.monoMsNow
  let outcome := Running.command a.command (Session.start before input.toList)
  let (report, s) : Except Error Report × Session :=
    match outcome with
    | .ok r s => (.ok r, s)
    | .error e s => (.error e, s)
  bringToDisk before s.files
  (← IO.getStdout).write ⟨s.output.toArray⟩
  if a.verbosity ≠ 0 then
    for w in s.warnings.reverse do
      IO.eprintln s!"[WARN] {w.message}"
  match report with
  | .ok r =>
      IO.print (r.text a ((← IO.monoMsNow) - started))
      return 0
  | .error e =>
      IO.eprintln s!"Error: {e.message}"
      return 1

end Concordance

open Concordance in
/-- Take over from the disk what the command can reach, run the command on that, and bring the disk
to where the command left the files. -/
def main (words : List String) : IO UInt32 := do
  match Arguments.parse words with
  | .ok a =>
      try runProgram a
      catch e =>
        IO.eprintln s!"Error: {e}"
        return 1
  | .error .helpAsked =>
      IO.print usageText
      return 0
  | .error .versionAsked =>
      IO.println "concordance 1"
      return 0
  | .error _ =>
      IO.eprint usageText
      return 2
