import Concordance.Text.DecimalDigit
import Concordance.Text.WhiteSpace

namespace Concordance

/-- Characters named in a pattern: a range, or one of the classes and their complements. -/
inductive CharItem
  | range (first last : Char)
  | space (inside : Bool)
  | digit (inside : Bool)
  deriving DecidableEq

def CharItem.has : CharItem → Char → Bool
  | .range first last, c => first ≤ c && c ≤ last
  | .space inside, c => Text.isWhiteSpace c == inside
  | .digit inside, c => Text.isDecimalDigit c == inside

structure CharSet where
  inside : Bool
  items : List CharItem
  deriving DecidableEq

def CharSet.has (s : CharSet) (c : Char) : Bool := s.items.any (·.has c) == s.inside

/-- Patterns for stretches of text. Of two alternatives the first that leads to a match counts, and
an eager repetition prefers more rounds, a reluctant one fewer. -/
inductive Pattern
  | empty
  | one (set : CharSet)
  | seq (p q : Pattern)
  | alt (p q : Pattern)
  /-- At least `least` rounds, and at most `extra` more if that is given. -/
  | repeated (p : Pattern) (least : Nat) (extra : Option Nat) (eager : Bool)
  | textStart
  | textEnd
  deriving DecidableEq

def Pattern.char (c : Char) : Pattern := .one ⟨true, [.range c c]⟩

end Concordance
