import Concordance.Analysis.Analyzer
import Concordance.Json.Decode

namespace Concordance

open Analysis (AnalyzerConfig)

structure DirectorySettings where
  path : String
  memoryMapped : Bool := false
  bufferSize : Nat := 65536
  syncWrites : Bool := false
  deriving DecidableEq

inductive StorageSettings
  | directory (settings : DirectorySettings)
  | memory (capacity : Nat)
  deriving DecidableEq

structure Settings where
  analyzer : AnalyzerConfig := {}
  storage : StorageSettings := .memory 16
  deriving DecidableEq

namespace Settings

open JsonValue

def analyzer? (v : JsonValue) : Option AnalyzerConfig := do
  match ← fields? ["use_default_stop_words", "stop_words"] v with
  | [useEnglish, stopWords] =>
      return ⟨← optional bool? false useEnglish, ← optional strings? [] stopWords⟩
  | _ => none

def index? (v : JsonValue) : Option AnalyzerConfig := do
  match ← fields? ["analyzer"] v with
  | [analyzer] => optional analyzer? {} analyzer
  | _ => none

def directory? (v : JsonValue) : Option DirectorySettings := do
  match ← fields? ["path", "use_mmap", "buffer_size", "sync_writes"] v with
  | [path, memoryMapped, bufferSize, syncWrites] =>
      return ⟨← required string? path, ← optional bool? false memoryMapped,
        ← optional natural? 65536 bufferSize, ← optional bool? false syncWrites⟩
  | _ => none

def memory? (v : JsonValue) : Option Nat := do
  match ← fields? ["initial_capacity"] v with
  | [capacity] => optional natural? 16 capacity
  | _ => none

def storage? (v : JsonValue) : Option StorageSettings := do
  match ← tagged? "type" v with
  | ("file", v) => .directory <$> directory? v
  | ("memory", v) => .memory <$> memory? v
  | _ => none

def ofJson? (v : JsonValue) : Option Settings := do
  match ← fields? ["index", "storage"] v with
  | [index, storage] =>
      return ⟨← optional index? {} index, ← optional storage? (.memory 16) storage⟩
  | _ => none

def ofFile (file : Bytes) : Except Error Settings :=
  match Utf8.decode? file with
  | none => .error (.io .invalidText)
  | some text =>
      match parse? text >>= ofJson? with
      | some s => .ok s
      | none => .error .json

def analyzerToJson (c : AnalyzerConfig) : JsonValue :=
  ofMembers [("use_default_stop_words", .bool c.useEnglish),
    ("stop_words", .array (c.stopWords.map .string))]

def storageToJson : StorageSettings → JsonValue
  | .directory d =>
      ofMembers [("type", .string "file"), ("path", .string d.path),
        ("use_mmap", .bool d.memoryMapped), ("buffer_size", .natural d.bufferSize),
        ("sync_writes", .bool d.syncWrites)]
  | .memory capacity =>
      ofMembers [("type", .string "memory"), ("initial_capacity", .natural capacity)]

def toJson (s : Settings) : JsonValue :=
  ofMembers [("index", ofMembers [("analyzer", analyzerToJson s.analyzer)]),
    ("storage", storageToJson s.storage)]

end Settings

end Concordance
