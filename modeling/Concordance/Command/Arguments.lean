import Concordance.Command.Grammar

namespace Concordance

inductive OutputFormat
  | human
  | json
  deriving DecidableEq

inductive Command
  | make (dump store : String)
  | dump (store : String)
  | get (store key : String) (all : Bool)
  | stats (store : String)
  | index (documents directory : String) (config : Option String)
  | search (directory query : String) (limit : Nat) (config : Option String) (memoryMapped : Bool)
  deriving DecidableEq

structure Arguments where
  verbose : Nat
  quiet : Bool
  format : OutputFormat
  pretty : Bool
  command : Command
  deriving DecidableEq

namespace Arguments

/-- How much is said beside the results. Quiet overrides verbose. -/
def verbosity (a : Arguments) : Nat := if a.quiet then 0 else a.verbose + 1

def helpOption : OptionRule := ⟨"help", some 'h', .asks .helpAsked⟩

def configOption : OptionRule := ⟨"config", some 'c', .takes .path⟩

def commandNames : List String := ["make", "dump", "get", "stats", "index", "search", "help"]

def mainGrammar : Grammar where
  options :=
    [⟨"verbose", some 'v', .counts⟩, ⟨"quiet", some 'q', .switches⟩,
      ⟨"format", some 'f', .takes (.choice ["human", "json"])⟩, ⟨"pretty", none, .switches⟩,
      helpOption, ⟨"version", some 'V', .asks .versionAsked⟩]
  positionals := []
  commands := commandNames

def commandGrammar : String → Grammar × (CommandScan → Option Command)
  | "make" => (⟨[helpOption], [("dump", .path), ("store", .path)], []⟩, fun s => do
      return .make (← s.values.lookup "dump") (← s.values.lookup "store"))
  | "dump" => (⟨[helpOption], [("store", .path)], []⟩, fun s => do
      return .dump (← s.values.lookup "store"))
  | "get" => (⟨[⟨"all", some 'a', .switches⟩, helpOption], [("store", .path), ("key", .text)], []⟩,
      fun s => do
        return .get (← s.values.lookup "store") (← s.values.lookup "key") (s.switches.contains "all"))
  | "stats" => (⟨[helpOption], [("store", .path)], []⟩, fun s => do
      return .stats (← s.values.lookup "store"))
  | "index" =>
      (⟨[configOption, helpOption], [("documents", .path), ("directory", .path)], []⟩, fun s => do
        return .index (← s.values.lookup "documents") (← s.values.lookup "directory")
          (s.values.lookup "config"))
  | _ =>
      (⟨[⟨"limit", some 'l', .takes .number⟩, configOption, ⟨"mmap", none, .switches⟩, helpOption],
        [("directory", .path), ("query", .text)], []⟩, fun s => do
          return .search (← s.values.lookup "directory") (← s.values.lookup "query")
            (((s.values.lookup "limit").bind number?).getD 10) (s.values.lookup "config")
            (s.switches.contains "mmap"))

def helpFault : List String → UsageFault
  | [] => .helpAsked
  | [c] => if commandNames.contains c then .helpAsked else .unknownCommand
  | _ => .unknownCommand

def parseCommand (name : String) (words : List String) : Except UsageFault Command := do
  if name = "help" then throw (helpFault words)
  let (g, command?) := commandGrammar name
  match command? (← g.parse words) with
  | some c => return c
  | none => throw .parameterMissing

/-- A command is read before the value is checked of the option in front of it. -/
def parse (words : List String) : Except UsageFault Arguments := do
  let (s, command?) ← mainGrammar.scan .empty words
  match command? with
  | none =>
      let s ← s.settle
      throw (if s.isBlank then .commandNeeded else .commandMissing)
  | some (name, rest) =>
      let command ← parseCommand name rest
      let s ← s.settle
      return { verbose := min (s.switches.count "verbose") 255
               quiet := s.switches.contains "quiet"
               format := if s.values.lookup "format" = some "json" then .json else .human
               pretty := s.switches.contains "pretty"
               command }

end Arguments

end Concordance
