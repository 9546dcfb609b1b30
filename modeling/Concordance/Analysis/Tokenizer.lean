import Concordance.Analysis.Token
import Concordance.Pattern.Match
import Concordance.Error

namespace Concordance.Analysis

open Pattern (Place Hit Engine)

structure Tokenizer where
  source : String
  find : String → List Hit
  gaps : Bool

namespace Tokenizer

def name : String := "regex"

/-- Runs of white space and of the marks `, . ; : ! ? [ ] ( ) ' "`. -/
def delimiters : String := "[\\s,.;:!?\\[\\]()'\"]+"

def delimiterSet : CharSet :=
  ⟨true, [.space true, .range ',' ',', .range '.' '.', .range ';' ';', .range ':' ':',
    .range '!' '!', .range '?' '?', .range '[' '[', .range ']' ']', .range '(' '(',
    .range ')' ')', .range '\'' '\'', .range '"' '"']⟩

def ofPattern? (compile : Engine) (source : String) (gaps : Bool) : Except Error Tokenizer :=
  match compile source with
  | .ok find => .ok ⟨source, find, gaps⟩
  | .error e => .error (.analysis s!"Invalid regex pattern: {e}")

def standard : Tokenizer :=
  ⟨delimiters, (Pattern.repeated (.one delimiterSet) 1 none true).hits, true⟩

def takeBytes : Nat → List Char → List Char
  | _, [] => []
  | n, c :: rest => if n = 0 then [] else c :: takeBytes (n - c.utf8Size) rest

def between (a b : Place) : String × Nat × Nat :=
  (String.ofList (takeBytes (b.offset - a.offset) a.ahead), a.offset, b.offset)

def gapsFrom (s : Place) : List Hit → List (String × Nat × Nat)
  | [] =>
      if s.ahead = [] then []
      else
        let text := String.ofList s.ahead
        [(text, s.offset, s.offset + text.utf8ByteSize)]
  | h :: hs =>
      if s.offset < h.start.offset then between s h.start :: gapsFrom h.stop hs
      else gapsFrom h.stop hs

def tokenize (t : Tokenizer) (text : String) : List Token :=
  let hits := t.find text
  let pieces :=
    if t.gaps then gapsFrom (.begin text) hits
    else (hits.filter (!·.isEmpty)).map fun h => between h.start h.stop
  pieces.zipIdx.map fun ((text, start, stop), i) => { text, position := i, start, stop }

end Tokenizer

end Concordance.Analysis
