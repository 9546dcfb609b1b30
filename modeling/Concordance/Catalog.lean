import Concordance.Field
import Concordance.Index.Publication

namespace Concordance

open Analysis (AnalyzerConfig)
open Index (Builder Hit Pending Searcher Searching Summary)

structure Readers where
  routes : Searcher
  tags : Searcher
  content : Searcher

namespace Readers

def get (r : Readers) : Field → Searcher
  | .routes => r.routes
  | .tags => r.tags
  | .content => r.content

def set (r : Readers) (f : Field) (s : Searcher) : Readers :=
  match f with
  | .routes => { r with routes := s }
  | .tags => { r with tags := s }
  | .content => { r with content := s }

def opening (c : AnalyzerConfig) : Script Readers :=
  return ⟨← Searcher.opening Field.routes.fileName c, ← Searcher.opening Field.tags.fileName c,
    ← Searcher.opening Field.content.fileName c⟩

def ofFiles (c : AnalyzerConfig) : Storing Readers := (opening c).run

end Readers

/-- A catalog has no readers until its indices have been opened. -/
structure Catalog where
  config : AnalyzerConfig
  readers : Option Readers

abbrev Serving (α : Type) := EStateM Error (Catalog × Storage) α

structure UpdateSummary where
  documents : Nat
  indices : List (Field × Summary)
  deriving DecidableEq

namespace Catalog

def ofConfig (c : AnalyzerConfig) : Catalog := ⟨c, none⟩

def isReady (c : Catalog) : Bool := c.readers.isSome

/-- A catalog of what is published, without readers unless all of it is there. -/
def ofFiles (c : AnalyzerConfig) : Storing Catalog := do
  let s ← get
  if Field.all.all fun f => s.isPresent f.fileName then return ⟨c, some (← Readers.ofFiles c)⟩
  else return ofConfig c

def sources (f : Field) (ds : List Document) : List (Bytes × String × String) :=
  ds.map fun d => (Bytes.ofString d.id, f.project d, d.stored)

def building (c : AnalyzerConfig) (ds : List Document) (f : Field) : Script Pending := do
  let b ← Script.ofExcept (((Builder.ofConfig c).addAll (sources f ds)).mapError .index)
  b.preparing f.fileName

/-- Build the indices of fields. A failure does not keep the others from being built. -/
def buildingAll (c : AnalyzerConfig) (ds : List Document) :
    List Field → Script (List (Field × Except Error Pending))
  | [] => return []
  | f :: fs => do
      let built ← (building c ds f).attempt
      return (f, built) :: (← buildingAll c ds fs)

def firstError (outcomes : List (Field × Except Error Pending)) : Option Error :=
  outcomes.findSome? fun (_, built) => match built with | .ok _ => none | .error e => some e

def finished (outcomes : List (Field × Except Error Pending)) : List (Field × Pending) :=
  outcomes.filterMap fun (f, built) => built.toOption.map (f, ·)

def discardingAll : List (Field × Pending) → Script Unit
  | [] => return
  | (_, p) :: ps => do
      tryCatch p.discarding fun e => Script.call (.warn (.unpublishedLeft p.name e))
      discardingAll ps

/-- Publish indices one after the other. The first failure discards those after it. -/
def publishingAll : List (Field × Pending) → Script (List (Field × Summary))
  | [] => return []
  | (f, p) :: ps => do
      let summary ← tryCatch p.publishing fun e => do
        discardingAll ps
        throw e
      return (f, summary) :: (← publishingAll ps)

/-- Replace the published indices by those of the documents. -/
def publishing (c : AnalyzerConfig) (ds : List Document) : Script (List (Field × Summary)) := do
  let outcomes ← buildingAll c ds Field.all
  match firstError outcomes with
  | some e =>
      discardingAll (finished outcomes)
      throw e
  | none => publishingAll (finished outcomes)

def updating (c : AnalyzerConfig) (ds : List Document) :
    Script (List (Field × Summary) × Readers) :=
  return (← publishing c ds, ← Readers.opening c)

end Catalog

namespace Serving

def onStorage {α : Type} (m : Storing α) : Serving α := fun (c, s) =>
  match m s with
  | .ok a s => .ok a (c, s)
  | .error e s => .error e (c, s)

/-- Publish the indices of the documents and search them from now on. After a failure the catalog
searches what it searched before. -/
def update (ds : List Document) : Serving UpdateSummary := do
  let c := (← get).1.config
  let (indices, readers) ← onStorage (Catalog.updating c ds).run
  modify fun (c, s) => ({ c with readers := some readers }, s)
  return ⟨ds.length, indices⟩

def searchField (f : Field) (query : String) (limit : Nat) : Serving (List Hit) := fun (c, s) =>
  match c.readers with
  | none => .ok [] (c, s)
  | some r =>
      match Searcher.search query limit ((r.get f).refresh s.content) with
      | .ok hits reader => .ok hits ({ c with readers := some (r.set f reader) }, s)
      | .error e reader => .error e ({ c with readers := some (r.set f reader) }, s)

def search (query : String) (limit : Nat) : Serving (List Hit) :=
  let q := Query.ofString query
  searchField q.field q.text limit

end Serving

end Concordance
