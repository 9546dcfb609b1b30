import Concordance.Analysis.Filter
import Concordance.Analysis.Tokenizer

namespace Concordance.Analysis

structure AnalyzerConfig where
  useEnglish : Bool := false
  stopWords : List String := []
  deriving DecidableEq

def AnalyzerConfig.effectiveStopWords (c : AnalyzerConfig) : List String :=
  StopWords.effective c.useEnglish c.stopWords

def AnalyzerConfig.fingerprint (c : AnalyzerConfig) : UInt32 :=
  StopWords.fingerprint c.effectiveStopWords

structure Analyzer where
  /-- In ascending order. -/
  stopWords : List String
  fingerprint : UInt32
  deriving DecidableEq

namespace Analyzer

def name : String := "standard"

def ofConfig (c : AnalyzerConfig) : Analyzer := ⟨c.effectiveStopWords, c.fingerprint⟩

def filters (a : Analyzer) : List Filter :=
  [.strip, .lowercase] ++ if a.stopWords.isEmpty then [] else [.stop a.stopWords]

def analyze (a : Analyzer) (text : String) : List Token :=
  a.filters.foldl (fun ts f => f.apply ts) (Tokenizer.standard.tokenize text)

def words (a : Analyzer) (text : String) : List String :=
  ((a.analyze text).filter (!·.stopped)).map (·.text)

def describe (a : Analyzer) : String :=
  let filters := ", ".intercalate (a.filters.map fun f => Text.quoted f.name)
  "StandardAnalyzer \x7b tokenizer: " ++ Text.quoted Tokenizer.name ++ ", filters: [" ++ filters ++
    s!"], fingerprint: {a.fingerprint} \x7d"

end Analyzer

end Concordance.Analysis
