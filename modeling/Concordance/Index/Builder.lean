import Concordance.Analysis.Analyzer
import Concordance.BlockStore.Builder
import Concordance.Index.Header
import Concordance.Posting
import Concordance.Text.Tally
import Std.Data.ExtTreeMap
import Std.Data.ExtTreeSet

namespace Concordance.Index

open Analysis (Analyzer AnalyzerConfig)

structure Entry where
  words : List (String × Nat)
  stored : Bytes

structure Summary where
  documents : Nat
  words : Nat
  bytes : Nat
  deriving DecidableEq

structure Builder where
  analyzer : Analyzer
  entries : Std.ExtTreeMap Bytes Entry
  vocabulary : Std.ExtTreeSet String

namespace Builder

def ofConfig (c : AnalyzerConfig) : Builder := ⟨Analyzer.ofConfig c, ∅, ∅⟩

/-- Take in a document. An id is taken once. -/
def add (b : Builder) (id : Bytes) (indexed stored : String) : Except IndexFault Builder :=
  if b.entries.contains id then .error (.duplicateDocument id)
  else
    let words := Text.Tally.ofList (b.analyzer.words indexed ++ b.analyzer.words stored)
    .ok { b with
      entries := b.entries.insert id ⟨words, Bytes.ofString stored⟩
      vocabulary := b.vocabulary.insertMany (words.map (·.1)) }

def postingsOf (word : String) (es : List (Bytes × Entry)) : List Posting :=
  es.filterMap fun (id, e) =>
    match Text.Tally.count word e.words with
    | 0 => none
    | n => some ⟨id, UInt64.ofNat n⟩

def documentRecords (b : Builder) : List BlockStore.Record :=
  b.entries.toList.map fun (id, e) => ⟨id, e.stored⟩

def wordRecords (b : Builder) : List BlockStore.Record :=
  let es := b.entries.toList
  b.vocabulary.toList.map fun w => ⟨Bytes.ofString w, Posting.encode (postingsOf w es)⟩

/-- The index file, in the three parts in which it is written, and what it holds. -/
def finish (b : Builder) : Except FormatFault (List Bytes × Summary) := do
  let (documents, documentSummary) ← BlockStore.make b.documentRecords
  let (words, wordSummary) ← BlockStore.make b.wordRecords
  let header : Header :=
    ⟨b.analyzer.fingerprint, UInt64.ofNat documentSummary.bytes, UInt64.ofNat wordSummary.bytes,
      UInt64.ofNat b.entries.size, UInt64.ofNat b.vocabulary.size⟩
  return ([header.encode, documents, words],
    ⟨b.entries.size, b.vocabulary.size, header.fileLength⟩)

def addAll (b : Builder) (documents : List (Bytes × String × String)) : Except IndexFault Builder :=
  documents.foldlM (fun b (id, indexed, stored) => b.add id indexed stored) b

end Builder

end Concordance.Index
