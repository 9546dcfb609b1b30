import Concordance.Index.Builder
import Concordance.Index.Searcher
import Concordance.Storage.Script

namespace Concordance.Index

open Script (call)

/-- An index that has been written to a temporary file. -/
structure Pending where
  temporary : String
  name : String
  summary : Summary
  deriving DecidableEq

/-- Delete a temporary file after a failure, which a failure to do so does not replace. -/
def removingTemporary (temporary : String) : Script Unit :=
  tryCatch (call (.delete temporary)) fun e => call (.warn (.temporaryLeft temporary e))

def writingParts (o : Output) : List Bytes → Script (Except Error Unit × Output)
  | [] => do
      let (flushed, o) ← call (.flush o)
      match flushed with
      | .ok () => call (.close o)
      | .error e => return (.error e, o)
  | b :: rest => do
      let (written, o) ← call (.write o b)
      match written with
      | .ok () => writingParts o rest
      | .error e => return (.error e, o)

/-- Write an index to a temporary file, of which nothing stays if that fails. -/
def Builder.preparing (b : Builder) (name : String) : Script Pending := do
  let (temporary, output) ← call (.createTemporary name)
  match b.finish with
  | .error f =>
      call (.drop output)
      removingTemporary temporary
      throw (.format f)
  | .ok (parts, summary) =>
      let (written, output) ← writingParts output parts
      call (.drop output)
      match written with
      | .ok () => return ⟨temporary, name, summary⟩
      | .error e =>
          removingTemporary temporary
          throw e

def Builder.prepare (b : Builder) (name : String) : Storing Pending := (b.preparing name).run

namespace Pending

variable (p : Pending)

/-- Give the index its name. Nothing stays of it if that fails. -/
def publishing : Script Summary :=
  tryCatch (do call (.rename p.temporary p.name); return p.summary) fun e => do
    removingTemporary p.temporary
    throw e

def publish : Storing Summary := p.publishing.run

def discarding : Script Unit := call (.delete p.temporary)

def discard : Storing Unit := p.discarding.run

end Pending

def Builder.ofDocuments (c : Analysis.AnalyzerConfig) (ds : List (Bytes × String × String)) :
    Storing Builder :=
  ofExcept (((Builder.ofConfig c).addAll ds).mapError .index)

def Builder.commit (b : Builder) (name : String) : Storing Summary := do (← b.prepare name).publish

/-- The searcher of the index that has the name. It keeps to the file that it finds, also when the
name goes to another. -/
def Searcher.opening (name : String) (c : Analysis.AnalyzerConfig) : Script Searcher := do
  Script.ofExcept (ofInput (← call (.openInput name)) c)

def Searcher.ofFile (name : String) (c : Analysis.AnalyzerConfig) : Storing Searcher :=
  (opening name c).run

end Concordance.Index
