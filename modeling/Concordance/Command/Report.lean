import Concordance.Catalog
import Concordance.Command.Arguments
import Concordance.Json.Printer

namespace Concordance

inductive Report
  | silent
  | built (store : String) (summary : BlockStore.Summary)
  | described (store : String) (stats : BlockStore.Stats)
  | indexed (directory : String) (summary : UpdateSummary)
  | found (query : String) (field : Field) (hits : List Index.Hit)

namespace Report

open JsonValue

def padLeft (n : Nat) (s : String) : String :=
  String.ofList (List.replicate (n - s.length) ' ' ++ s.toList)

def padRight (n : Nat) (s : String) : String :=
  String.ofList (s.toList ++ List.replicate (n - s.length) ' ')

def indexJson (f : Field) (s : Index.Summary) : JsonValue :=
  ofMembers [("field", .string f.name), ("file", .string f.fileName), ("words", .natural s.words),
    ("bytes", .natural s.bytes)]

def hitJson (h : Index.Hit) : JsonValue :=
  ofMembers [("id", .string (Utf8.lossy h.id)), ("title", .string (Utf8.lossy h.stored)),
    ("score", .natural h.score.toNat)]

def toJson? (milliseconds : Nat) : Report → Option JsonValue
  | .silent => none
  | .built store s =>
      some (ofMembers [("store", .string store), ("records", .natural s.records),
        ("bytes", .natural s.bytes), ("duration_ms", .natural milliseconds)])
  | .described store s =>
      some (ofMembers [("store", .string store), ("records", .natural s.records),
        ("bytes", .natural s.bytes), ("used_buckets", .natural s.usedBuckets),
        ("max_table_len", .natural s.longestTable)])
  | .indexed directory s =>
      some (ofMembers [("index_dir", .string directory), ("documents", .natural s.documents),
        ("indices", .array (s.indices.map fun (f, i) => indexJson f i)),
        ("duration_ms", .natural milliseconds)])
  | .found query field hits =>
      some (ofMembers [("query", .string query), ("field", .string field.name),
        ("hits", .array (hits.map hitJson)), ("duration_ms", .natural milliseconds)])

def indexLine (f : Field) (s : Index.Summary) : String :=
  s!"  {padRight 12 f.fileName} {padLeft 8 (toString s.words)} words {padLeft 10 (toString s.bytes)} bytes"

def hitLine (number : Nat) (h : Index.Hit) : String :=
  s!"{padLeft 3 (toString number)}. {Utf8.lossy h.stored} ({Utf8.lossy h.id})  score {h.score}"

def hitLines (number : Nat) : List Index.Hit → List String
  | [] => []
  | h :: hs => hitLine number h :: hitLines (number + 1) hs

def lines (verbosity milliseconds : Nat) : Report → List String
  | .silent => []
  | .built store s =>
      if verbosity = 0 then []
      else [s!"Built {store} ({s.records} records, {s.bytes} bytes) in {milliseconds} ms"]
  | .described store s =>
      [s!"Store:         {store}", s!"Records:       {s.records}", s!"Bytes:         {s.bytes}",
        s!"Used buckets:  {s.usedBuckets} / 256", s!"Largest table: {s.longestTable} slots"]
  | .indexed directory s =>
      if verbosity = 0 then []
      else s!"Indexed {s.documents} documents into {directory} in {milliseconds} ms" ::
        s.indices.map fun (f, i) => indexLine f i
  | .found query field [] =>
      if verbosity = 0 then [] else [s!"No results for {Text.quoted query} in {field.name}"]
  | .found _ field hits =>
      hitLines 1 hits ++
        if verbosity ≤ 1 then []
        else ["", s!"{hits.length} results from {field.name} in {milliseconds} ms"]

def text (a : Arguments) (milliseconds : Nat) (r : Report) : String :=
  match a.format with
  | .human => String.join ((r.lines a.verbosity milliseconds).map (· ++ "\n"))
  | .json =>
      match r.toJson? milliseconds with
      | some v => render (if a.pretty then indented else compact) v ++ "\n"
      | none => ""

end Report

end Concordance
