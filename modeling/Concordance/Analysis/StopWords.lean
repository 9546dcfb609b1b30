import Concordance.KeyHash
import Concordance.Text.Case
import Concordance.Text.Split
import Concordance.Text.WordSet

namespace Concordance.Analysis.StopWords

def english : List String :=
  ["a", "an", "and", "are", "as", "at", "be", "but", "by", "for", "if", "in", "into", "is", "it",
    "no", "not", "of", "on", "or", "such", "that", "the", "their", "then", "there", "these",
    "they", "this", "to", "was", "will", "with"]

def normalize (w : String) : String := Text.lowercase (Text.trim w)

def effective (useEnglish : Bool) (words : List String) : List String :=
  Text.WordSet.ofList ((words.map normalize).filter (· ≠ "") ++ if useEnglish then english else [])

/-- What the fingerprint of an analyzer is the hash of: the pipeline's name and the words, each
closed by a zero. -/
def image (set : List String) : Bytes :=
  (Bytes.ofString "standard" ++ [0]) ++ set.flatMap fun w => Bytes.ofString w ++ [0]

def fingerprint (set : List String) : UInt32 := KeyHash.hash (image set)

end Concordance.Analysis.StopWords
