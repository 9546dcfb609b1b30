import Concordance.Text.CaseIgnorable
import Concordance.Text.Cased
import Concordance.Text.LowercaseTable

namespace Concordance.Text

def nextIsCased (s : List Char) : Bool :=
  match s.dropWhile isCaseIgnorable with
  | [] => false
  | c :: _ => isCased c

/-- A sigma ends a word if a letter stands before it and none behind it. -/
def endsWord (before after : List Char) : Bool := nextIsCased before && !nextIsCased after

def lowercaseChar (c : Char) : List Char :=
  if c = 'İ' then ['i', '\u0307']
  else [((smallForm? c.toNat).map Char.ofNat).getD c]

def lowercaseFrom (before : List Char) : List Char → List Char
  | [] => []
  | c :: after =>
      (if c = 'Σ' then [if endsWord before after then 'ς' else 'σ'] else lowercaseChar c) ++
        lowercaseFrom (c :: before) after

/-- A capital sigma that ends a word becomes the final form of the letter, and the dotted capital I
becomes two characters. -/
def lowercase (s : String) : String := String.ofList (lowercaseFrom [] s.toList)

end Concordance.Text
