import Concordance.Text.GraphemeExtend
import Concordance.Text.Unprintable

namespace Concordance.Text

/-- Letters that only fill the place of one and show nothing. -/
def filler : CharClass where
  ranges := [(0x115F, 0x1160), (0x3164, 0x3164), (0xFFA0, 0xFFA0)]

/-- Marks that attach to the character before them and yet take a place of their own. -/
def spacingMark : CharClass where
  ranges := [(0xFF9E, 0xFF9F)]

def isHidden (c : Char) : Bool :=
  isUnprintable c || filler.has c || isGraphemeExtend c && !spacingMark.has c

def codeEscape (c : Char) : List Char :=
  "\\u\x7b".toList ++ Nat.toDigits 16 c.toNat ++ "\x7d".toList

def escapeChar (quote c : Char) : List Char :=
  if c = '\x00' then ['\\', '0']
  else if c = '\t' then ['\\', 't']
  else if c = '\r' then ['\\', 'r']
  else if c = '\n' then ['\\', 'n']
  else if c = '\\' ∨ c = quote then ['\\', c]
  else if isHidden c then codeEscape c
  else [c]

/-- What is written stays on one line and shows every character: hidden ones are written by their
code. -/
def quoted (s : String) : String :=
  String.ofList (['"'] ++ s.toList.flatMap (escapeChar '"') ++ ['"'])

def quotedChar (c : Char) : String :=
  String.ofList (['\''] ++ escapeChar '\'' c ++ ['\''])

end Concordance.Text
