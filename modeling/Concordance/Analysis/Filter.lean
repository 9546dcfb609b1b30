import Concordance.Analysis.Token
import Concordance.Analysis.StopWords
import Concordance.Text.Uppercase
import Std.Data.ExtTreeSet

namespace Concordance.Analysis

inductive Filter
  | strip
  | lowercase
  | stop (words : List String)
  deriving DecidableEq

namespace Filter

def name : Filter → String
  | .strip => "strip"
  | .lowercase => "lowercase"
  | .stop _ => "stop"

/-- White space at both ends goes. A token of white space alone is stopped and keeps its text. -/
def stripToken (t : Token) : Token :=
  if t.stopped then t
  else
    let trimmed := Text.trim t.text
    if trimmed = "" then { t with stopped := true } else { t with text := trimmed }

/-- Only a token with a capital in it is folded. -/
def lowercaseToken (t : Token) : Token :=
  if t.stopped || !t.text.toList.any Text.isUppercase then t
  else { t with text := Text.lowercase t.text }

def apply : Filter → List Token → List Token
  | .strip, ts => ts.map stripToken
  | .lowercase, ts => ts.map lowercaseToken
  | .stop words, ts =>
      let set := Std.ExtTreeSet.ofList words
      ts.filter fun t => !set.contains t.text

theorem apply_stop (words : List String) (ts : List Token) :
    (stop words).apply ts = ts.filter fun t => !words.contains t.text := by
  simp [apply]

end Filter

end Concordance.Analysis
