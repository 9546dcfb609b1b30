import Concordance.Document

namespace Concordance

inductive Field
  | routes
  | tags
  | content
  deriving DecidableEq

namespace Field

/-- In the order in which the fields are built and published. -/
def all : List Field := [.routes, .tags, .content]

def name : Field → String
  | .routes => "routes"
  | .tags => "tags"
  | .content => "content"

def named? (s : String) : Option Field := all.find? (·.name = s)

/-- A field stands in JSON as its name, or as an object of which the name is the only member and
null its value. -/
def ofJson? : JsonValue → Option Field
  | .string s => named? s
  | .object [(some s, .null)] => named? s
  | _ => none

def fileName (f : Field) : String := f.name ++ ".idx"

def project : Field → Document → String
  | .routes => Document.routesText
  | .tags => Document.tagsText
  | .content => Document.contentText

end Field

structure Query where
  field : Field
  text : String
  deriving DecidableEq

/-- A slash in front searches the routes, with slashes read as blanks; a number sign searches the
tags, with number signs in front of words passed over. -/
def Query.ofString (s : String) : Query :=
  let s := Text.trim s
  match s.toList with
  | '/' :: _ => ⟨.routes, Text.trim (Text.replaceChar '/' ' ' s)⟩
  | '#' :: _ =>
      let words := (Text.wordsOf s).map fun w => String.ofList (w.toList.dropWhile (· = '#'))
      ⟨.tags, Text.joinWith ' ' (words.filter (· ≠ ""))⟩
  | _ => ⟨.content, s⟩

end Concordance
