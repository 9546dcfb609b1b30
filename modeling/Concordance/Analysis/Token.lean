namespace Concordance.Analysis

/-- A piece of text on its way through analysis, with its number and its byte range in the source.
A stopped token yields no word. -/
structure Token where
  text : String
  position : Nat
  start : Nat
  stop : Nat
  stopped : Bool := false
  deriving DecidableEq

end Concordance.Analysis
