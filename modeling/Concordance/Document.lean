import Concordance.Error
import Concordance.Json.Decode
import Concordance.Text.Split

namespace Concordance

structure Document where
  route : String
  title : String := ""
  description : String := ""
  tags : List String := []
  body : String := ""
  deriving DecidableEq

namespace Document

def routeWords (route : String) : String :=
  Text.joinWith ' ' (((Text.fields (· = '/') route).map Text.trim).filter (· ≠ ""))

variable (d : Document)

def id : String := "/" ++ Text.strip (· = '/') (Text.trim d.route)

/-- What a search shows of a document: its title, or its id if the title is blank. -/
def stored : String :=
  let title := Text.trim d.title
  if title = "" then d.id else title

def routesText : String := routeWords d.route

def tagsText : String := Text.joinWith ' ' d.tags

def contentText : String :=
  Text.joinWith '\n' [d.title, d.description, routeWords d.route, d.body]

def ofJson? (v : JsonValue) : Option Document := do
  match ← JsonValue.fields? ["route", "title", "description", "tags", "body"] v with
  | [route, title, description, tags, body] =>
      return ⟨← JsonValue.required JsonValue.string? route,
        ← JsonValue.optional JsonValue.string? "" title,
        ← JsonValue.optional JsonValue.string? "" description,
        ← JsonValue.optional JsonValue.strings? [] tags,
        ← JsonValue.optional JsonValue.string? "" body⟩
  | _ => none

def toJson : JsonValue :=
  JsonValue.ofMembers [("route", .string d.route), ("title", .string d.title),
    ("description", .string d.description), ("tags", .array (d.tags.map .string)),
    ("body", .string d.body)]

/-- The lines of a file without their ends. A last line needs no end. -/
def linesOf : Bytes → List Bytes
  | [] => []
  | b :: rest =>
      if b = 0x0A then [] :: linesOf rest
      else match rest, linesOf rest with
        | [], _ => [[b]]
        | _, [] => [[b]]
        | c :: _, l :: ls => if b = 0x0D ∧ c = 0x0A then l :: ls else (b :: l) :: ls

def ofLines (number : Nat) : List Bytes → Except Error (List Document)
  | [] => .ok []
  | line :: rest =>
      match Utf8.decode? line with
      | none => .error (.io .invalidText)
      | some text =>
          if Text.isBlank text then ofLines (number + 1) rest
          else match JsonValue.parse? text >>= ofJson? with
            | none => .error (.argument (.document number))
            | some d => do
                let ds ← ofLines (number + 1) rest
                return d :: ds

def load (file : Bytes) : Except Error (List Document) := ofLines 1 (linesOf file)

end Document

end Concordance
