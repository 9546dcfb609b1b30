import Concordance.Bytes.Packed
import Concordance.FileSystem.Path
import Std.Data.ExtTreeMap

namespace Concordance

/-- The names that lead to a place, the innermost first. The root has none. -/
abbrev Location := List String

inductive Node
  | file (number : Nat)
  | directory
  deriving DecidableEq

/-- The contents of a file live apart from its names: a file that has been opened keeps them when
its name goes to another. -/
structure FileSystem where
  entries : Std.ExtTreeMap Location Node
  /-- By the number of the file. -/
  contents : Array Packed
  workingDirectory : Location
  numbered : ∀ (loc : Location) (k : Nat), entries[loc]? = some (.file k) → k < contents.size

abbrev Filing (α : Type) := EStateM SystemFault FileSystem α

namespace FileSystem

def directoriesTo : Location → List (Location × Node)
  | [] => []
  | n :: loc => (n :: loc, .directory) :: directoriesTo loc

theorem not_file_mem_directoriesTo {loc place : Location} {k : Nat} :
    (place, .file k) ∉ directoriesTo loc := by
  induction loc with
  | nil => simp [directoriesTo]
  | cons n loc ih => simp [directoriesTo, ih]

theorem getElem?_insert_eq {m : Std.ExtTreeMap Location Node} {loc target : Location}
    {node other : Node} (h : (m.insert loc other)[target]? = some node) :
    (target, node) = (loc, other) ∨ m[target]? = some node := by
  rw [Std.ExtTreeMap.getElem?_insert] at h
  split at h
  · rename_i heq
    have hloc : loc = target := Std.LawfulEqCmp.eq_of_compare heq
    exact .inl (by rw [hloc, Option.some.inj h])
  · exact .inr h

theorem getElem?_erase_eq {m : Std.ExtTreeMap Location Node} {loc target : Location} {node : Node}
    (h : (m.erase loc)[target]? = some node) : m[target]? = some node := by
  rw [Std.ExtTreeMap.getElem?_erase] at h
  split at h
  · cases h
  · exact h

theorem mem_of_getElem?_insertMany {m : Std.ExtTreeMap Location Node} {l : List (Location × Node)}
    {loc : Location} {node : Node} (h : (m.insertMany l)[loc]? = some node) :
    m[loc]? = some node ∨ (loc, node) ∈ l := by
  induction l generalizing m with
  | nil => exact .inl (by simpa using h)
  | cons x l ih =>
    rw [Std.ExtTreeMap.insertMany_cons] at h
    rcases ih h with h | h
    · rcases getElem?_insert_eq h with h | h
      · exact .inr (by simp [h])
      · exact .inl h
    · exact .inr (List.mem_cons_of_mem _ h)

theorem mem_of_getElem?_ofList {l : List (Location × Node)} {loc : Location} {node : Node}
    (h : (Std.ExtTreeMap.ofList l)[loc]? = some node) : (loc, node) ∈ l := by
  rw [Std.ExtTreeMap.ofList_eq_insertMany_empty] at h
  exact (mem_of_getElem?_insertMany h).resolve_left (by simp)

def empty (workingDirectory : Location) : FileSystem where
  entries := .ofList (directoriesTo workingDirectory)
  contents := #[]
  workingDirectory := workingDirectory
  numbered _ _ h := absurd (mem_of_getElem?_ofList h) not_file_mem_directoriesTo

variable (fs : FileSystem)

def node? (loc : Location) : Option Node :=
  if loc = [] then some .directory else fs.entries[loc]?

def content (number : Nat) : Packed := fs.contents.getD number .empty

/-- The entry of a name in a directory. A name may have 255 bytes. -/
def child? (dir : Location) (n : String) : Except SystemFault (Option Node) :=
  if 255 < n.utf8ByteSize then .error .nameTooLong else .ok (fs.node? (n :: dir))

def follow : Location → List PathStep → Except SystemFault Location
  | loc, [] => .ok loc
  | loc, .here :: rest => follow loc rest
  | loc, .up :: rest => follow loc.tail rest
  | loc, .name n :: rest => do
      match ← fs.child? loc n with
      | none => throw .noEntry
      | some (.file _) => throw .notDirectory
      | some .directory => follow (n :: loc) rest

/-- The directory that the way of a path ends in, and what it asks for there. -/
def resolve (s : String) : Except SystemFault (Location × PathGoal) := do
  let p ← Path.ofString s
  let dir ← fs.follow (if p.absolute then [] else fs.workingDirectory) p.way
  return (dir, p.goal)

def find (s : String) : Except SystemFault (Location × Node) := do
  match ← fs.resolve s with
  | (dir, .here) => return (dir, .directory)
  | (dir, .up) => return (dir.tail, .directory)
  | (dir, .name n slashed) =>
      match ← fs.child? dir n with
      | none => throw .noEntry
      | some (.file k) => if slashed then throw .notDirectory else return (n :: dir, .file k)
      | some .directory => return (n :: dir, .directory)

def isPresent (s : String) : Bool := (fs.find s).isOk

def isDirectory (s : String) : Bool :=
  match fs.find s with
  | .ok (_, .directory) => true
  | _ => false

def read (s : String) : Except SystemFault Bytes := do
  match ← fs.find s with
  | (_, .file k) => return (fs.content k).toBytes
  | (_, .directory) => throw .isDirectory

def fileNames (s : String) : Except SystemFault (List String) := do
  match ← fs.find s with
  | (_, .file _) => throw .notDirectory
  | (dir, .directory) =>
      let names := fs.entries.toList.filterMap fun
        | (n :: loc, .file _) => if loc = dir then some n else none
        | _ => none
      return names.mergeSort fun m n => m ≤ n

def addDirectory (loc : Location) : FileSystem :=
  { fs with
    entries := fs.entries.insert loc .directory
    numbered := fun _ _ h =>
      (getElem?_insert_eq h).elim (fun h => by cases h) (fs.numbered _ _) }

def eraseNode (loc : Location) : FileSystem :=
  { fs with
    entries := fs.entries.erase loc
    numbered := fun _ _ h => fs.numbered _ _ (getElem?_erase_eq h) }

def setContent (number : Nat) (p : Packed) : FileSystem :=
  { fs with
    contents := fs.contents.setIfInBounds number p
    numbered := fun _ _ h => by simpa using fs.numbered _ _ h }

def addFile (loc : Location) : Nat × FileSystem :=
  (fs.contents.size,
    { fs with
      entries := fs.entries.insert loc (.file fs.contents.size)
      contents := fs.contents.push .empty
      numbered := fun _ _ h => by
        rw [Array.size_push]
        rcases getElem?_insert_eq h with h | h
        · cases h
          exact Nat.lt_succ_self _
        · exact Nat.lt_succ_of_lt (fs.numbered _ _ h) })

def moved (source target loc : Location) : Location :=
  if source <:+ loc then loc.take (loc.length - source.length) ++ target else loc

/-- Move what is at one place, and what lies in it if it is a directory, to another, over what was
there. -/
def moveNode (source target : Location) : FileSystem :=
  match h : fs.entries[source]? with
  | none => fs
  | some (.file k) =>
      { fs with
        entries := (fs.entries.erase source).insert target (.file k)
        numbered := fun _ _ hk => by
          rcases getElem?_insert_eq hk with hk | hk
          · cases hk
            exact fs.numbered _ _ h
          · exact fs.numbered _ _ (getElem?_erase_eq hk) }
  | some .directory =>
      { fs with
        entries := .ofList ((fs.entries.erase target).toList.map fun (loc, node) =>
          (moved source target loc, node))
        numbered := fun _ _ hk => by
          obtain ⟨⟨loc, node⟩, hx, heq⟩ := List.mem_map.1 (mem_of_getElem?_ofList hk)
          cases heq
          exact fs.numbered _ _
            (getElem?_erase_eq (Std.ExtTreeMap.mem_toList_iff_getElem?_eq_some.1 hx)) }

def isEmptyDirectory (loc : Location) : Bool :=
  fs.entries.toList.all fun (l, _) => l = loc ∨ ¬ loc <:+ l

/-- All that lies in the working directory, at any depth, by paths of which those of directories end
in a slash, in ascending order. -/
def listing : List (String × Node) :=
  let below := fs.entries.toList.filterMap fun (loc, node) =>
    let depth := loc.length - fs.workingDirectory.length
    if depth ≠ 0 ∧ fs.workingDirectory <:+ loc then
      let path := Text.joinWith '/' (loc.take depth).reverse
      some (if node = .directory then path ++ "/" else path, node)
    else none
  below.mergeSort fun x y => x.1 ≤ y.1

end FileSystem

namespace Filing

open FileSystem

def query {α : Type} (f : FileSystem → Except SystemFault α) : Filing α := do
  match f (← get) with
  | .ok a => return a
  | .error e => throw e

def create (s : String) : Filing Nat := do
  match ← query (resolve · s) with
  | (dir, .name n false) =>
      match ← query (child? · dir n) with
      | none => modifyGet (addFile · (n :: dir))
      | some (.file k) => do
          modify (setContent · k .empty)
          return k
      | some .directory => throw .isDirectory
  | _ => throw .isDirectory

def remove (s : String) : Filing Unit := do
  match ← query (resolve · s) with
  | (dir, .name n slashed) =>
      match ← query (child? · dir n) with
      | none => throw .noEntry
      | some .directory => throw .isDirectory
      | some (.file _) => if slashed then throw .notDirectory else modify (eraseNode · (n :: dir))
  | _ => throw .isDirectory

/-- Give what is at one path the name of another. A file takes the place of a file, and a directory
that of an empty one. -/
def rename (old new : String) : Filing Unit := do
  if Path.hasZero old || Path.hasZero new then throw .zeroInName
  let source ← query (resolve · old)
  let target ← query (resolve · new)
  match source, target with
  | (sourceDir, .name a aSlashed), (targetDir, .name b bSlashed) =>
      let some moved ← query (child? · sourceDir a) | throw .noEntry
      let present ← query (child? · targetDir b)
      let source := a :: sourceDir
      let target := b :: targetDir
      if moved ≠ .directory ∧ (aSlashed ∨ bSlashed) then throw .notDirectory
      if source <:+ targetDir then throw .invalidArgument
      if target <:+ sourceDir then throw .notEmpty
      if source = target then return
      match moved, present with
      | _, none => modify (moveNode · source target)
      | .file _, some (.file _) => modify (moveNode · source target)
      | .file _, some .directory => throw .isDirectory
      | .directory, some (.file _) => throw .notDirectory
      | .directory, some .directory =>
          if isEmptyDirectory (← get) target then modify (moveNode · source target)
          else throw .notEmpty
  | _, _ => throw .busy

def makeDirectory (s : String) : Filing Unit := do
  match ← query (resolve · s) with
  | (dir, .name n _) =>
      match ← query (child? · dir n) with
      | none => modify (addDirectory · (n :: dir))
      | some _ => throw .alreadyExists
  | _ => throw .alreadyExists

/-- An action that is to leave a directory at the path and does not count as failed if one is
there. -/
def allowPresent (s : String) (m : Filing Unit) : Filing Unit :=
  tryCatch m fun e => do if isDirectory (← get) s then return else throw e

/-- Make the directory `s` after those above it, whose names are `parents`. -/
def makeWithParents (absolute : Bool) : String → List String → Filing Unit
  | s, [] => if s = "" then return else allowPresent s (makeDirectory s)
  | s, _ :: parents =>
      tryCatch (makeDirectory s) fun e =>
        if e = .noEntry then do
          makeWithParents absolute (Path.ofParts absolute parents) parents
          allowPresent s (makeDirectory s)
        else allowPresent s (throw e)

def makeDirectories (s : String) : Filing Unit :=
  makeWithParents (Path.isAbsolute s) s (Path.parts s)

end Filing

end Concordance
