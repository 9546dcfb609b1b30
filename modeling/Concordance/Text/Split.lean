import Concordance.Text.WhiteSpace

namespace Concordance.Text

variable (p : Char → Bool)

def stripChars (s : List Char) : List Char :=
  ((s.dropWhile p).reverse.dropWhile p).reverse

def strip (s : String) : String := String.ofList (stripChars p s.toList)

def trim (s : String) : String := strip isWhiteSpace s

def isBlank (s : String) : Bool := s.toList.all isWhiteSpace

def fieldsOf : List Char → List (List Char)
  | [] => [[]]
  | c :: rest =>
      if p c then [] :: fieldsOf rest
      else match fieldsOf rest with
        | [] => [[c]]
        | f :: fs => (c :: f) :: fs

theorem fieldsOf_ne_nil (s : List Char) : fieldsOf p s ≠ [] := by
  cases s with
  | nil => simp [fieldsOf]
  | cons c s =>
    rw [fieldsOf]
    split
    · simp
    · split <;> simp

def fields (s : String) : List String := (fieldsOf p s.toList).map String.ofList

def wordsOf (s : String) : List String := (fields isWhiteSpace s).filter (· ≠ "")

def joinWith (sep : Char) (parts : List String) : String :=
  String.ofList (List.intercalate [sep] (parts.map String.toList))

def replaceChar (old new : Char) (s : String) : String :=
  String.ofList (s.toList.map fun c => if c = old then new else c)

end Concordance.Text
