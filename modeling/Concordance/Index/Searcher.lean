import Concordance.Analysis.Analyzer
import Concordance.BlockStore.View
import Concordance.Index.Header
import Concordance.Posting
import Std.Data.ExtTreeMap

namespace Concordance.Index

open Analysis (Analyzer AnalyzerConfig)
open BlockStore (View Viewing)

structure Hit where
  id : Bytes
  stored : Bytes
  score : UInt64
  deriving DecidableEq

structure Searcher where
  header : Header
  analyzer : Analyzer
  documents : View
  words : View

abbrev Searching (α : Type) := EStateM Error Searcher α

def saturatingAdd (m n : UInt64) : UInt64 :=
  UInt64.ofNat (min (m.toNat + n.toNat) (UInt64.size - 1))

abbrev Scores := Std.ExtTreeMap Bytes UInt64

def Scores.add (p : Posting) (s : Scores) : Scores :=
  s.alter p.id fun n? => some (saturatingAdd (n?.getD 0) p.count)

theorem Scores.getElem?_add (p : Posting) (s : Scores) (id : Bytes) :
    (s.add p)[id]? = if p.id = id then some (saturatingAdd (s[id]?.getD 0) p.count) else s[id]? := by
  rw [add, Std.ExtTreeMap.getElem?_alter]
  by_cases h : p.id = id
  · simp [h]
  · simp [h]

/-- Higher scores come first, and equal ones in ascending order of the ids. -/
def ranksBefore (x y : Bytes × UInt64) : Bool := y.2 < x.2 || (x.2 == y.2 && x.1 ≤ y.1)

def Scores.ranked (s : Scores) : List (Bytes × UInt64) := s.toList.mergeSort ranksBefore

namespace Searcher

/-- The searcher of an index, which must be whole and built with the same analyzer. Each of the two
stores has a cursor of its own. -/
def ofInput (i : Input) (c : AnalyzerConfig) : Except Error Searcher := do
  if i.size < Header.size then throw (.format (.indexTruncated i.size))
  let (head, i) := (← i.seek (.start 0)).readExact Header.size
  let header ← (Header.decode (← head)).mapError .format
  if header.fileLength ≠ i.size then throw (.format (.indexLength header.fileLength i.size))
  let analyzer := Analyzer.ofConfig c
  if analyzer.fingerprint ≠ header.fingerprint then throw (.format .analyzerMismatch)
  let documents ← View.ofInput i Header.size header.documentStoreLength.toNat
  let words ← View.ofInput i.clone header.wordStoreOffset header.wordStoreLength.toNat
  return ⟨header, analyzer, documents, words⟩

def ofBytes (file : Bytes) (c : AnalyzerConfig) : Except Error Searcher := ofInput (.ofBytes file) c

def refresh (content : Nat → Packed) (s : Searcher) : Searcher :=
  { s with documents := s.documents.refresh content, words := s.words.refresh content }

def onDocuments {α : Type} (m : Viewing α) : Searching α := fun s =>
  match m s.documents with
  | .ok a v => .ok a { s with documents := v }
  | .error e v => .error e { s with documents := v }

def onWords {α : Type} (m : Viewing α) : Searching α := fun s =>
  match m s.words with
  | .ok a v => .ok a { s with words := v }
  | .error e v => .error e { s with words := v }

def document (id : Bytes) : Searching (Option Bytes) := onDocuments (View.find id)

def postings (word : String) : Searching (List Posting) := do
  match ← onWords (View.find (Bytes.ofString word)) with
  | none => return []
  | some b =>
      match Posting.decode b with
      | .ok ps => return ps
      | .error f => throw (.format f)

def score : Scores → List String → Searching Scores
  | scores, [] => return scores
  | scores, w :: ws => do
      let ps ← postings w
      score (ps.foldl (fun s p => s.add p) scores) ws

def resolve : List (Bytes × UInt64) → Searching (List Hit)
  | [] => return []
  | (id, n) :: rest => do
      match ← document id with
      | none => throw (.corrupt (.documentMissing id))
      | some stored => return ⟨id, stored, n⟩ :: (← resolve rest)

/-- The best documents for a query, at most `limit` of them. A word that occurs twice in the query
counts once. -/
def search (query : String) (limit : Nat) : Searching (List Hit) := do
  if limit = 0 then return []
  let words := ((← get).analyzer.words query).eraseDups
  let scores ← score ∅ words
  resolve (scores.ranked.take limit)

end Searcher

end Concordance.Index
