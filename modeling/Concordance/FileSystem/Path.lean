import Concordance.Error
import Concordance.Text.Split

namespace Concordance

inductive PathStep
  | here
  | up
  | name (n : String)
  deriving DecidableEq

/-- What a path asks for in the directory that its way ends in. A slash behind a name asks for a
directory. -/
inductive PathGoal
  | here
  | up
  | name (n : String) (slashed : Bool)
  deriving DecidableEq

structure Path where
  absolute : Bool
  way : List PathStep
  goal : PathGoal
  deriving DecidableEq

def PathStep.ofName (n : String) : PathStep :=
  if n = "." then .here else if n = ".." then .up else .name n

def PathGoal.ofName (n : String) (slashed : Bool) : PathGoal :=
  match PathStep.ofName n with
  | .here => .here
  | .up => .up
  | .name n => .name n slashed

namespace Path

def namesOf (s : String) : List String := (Text.fields (· = '/') s).filter (· ≠ "")

def isAbsolute (s : String) : Bool := s.toList.head? = some '/'

def endsInSlash (s : String) : Bool := s.toList.getLast? = some '/'

def hasZero (s : String) : Bool := s.toList.contains '\x00'

/-- The path that a text spells. An empty text spells none, and 4096 bytes are too many. -/
def ofString (s : String) : Except SystemFault Path :=
  if hasZero s then .error .zeroInName
  else if s = "" then .error .noEntry
  else if 4096 ≤ s.utf8ByteSize then .error .nameTooLong
  else match (namesOf s).reverse with
    | [] => .ok ⟨isAbsolute s, [], .here⟩
    | last :: before =>
        .ok ⟨isAbsolute s, before.reverse.map PathStep.ofName, .ofName last (endsInSlash s)⟩

/-- The names of a path from the last to the first, as far as they count: a dot counts only where a
relative path begins with it. -/
def parts (s : String) : List String :=
  match namesOf s with
  | [] => []
  | n :: ns =>
      let rest := ns.filter (· ≠ ".")
      (if n = "." ∧ isAbsolute s then rest else n :: rest).reverse

/-- A hyphen and no other part, with or without slashes behind it. -/
def isHyphen (s : String) : Bool := !isAbsolute s && parts s = ["-"]

def ofParts (absolute : Bool) (ps : List String) : String :=
  (if absolute then "/" else "") ++ Text.joinWith '/' ps.reverse

def fileName? (s : String) : Option String :=
  match parts s with
  | n :: _ => if n = ".." ∨ n = "." then none else some n
  | [] => none

def withFileName (s n : String) : String :=
  match parts s with
  | _ :: ps =>
      let directory := ofParts (isAbsolute s) ps
      if directory = "" ∨ endsInSlash directory then directory ++ n else directory ++ "/" ++ n
  | [] => n

def join (directory s : String) : String :=
  if isAbsolute s then s
  else if directory = "" ∨ endsInSlash directory then directory ++ s
  else directory ++ "/" ++ s

end Path

end Concordance
