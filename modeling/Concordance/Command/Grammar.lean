namespace Concordance

inductive UsageFault
  | helpAsked
  | versionAsked
  | commandNeeded
  | commandMissing
  | parameterMissing
  | unknownParameter
  | unknownCommand
  | invalidValue
  | invalidNumber
  | unexpectedValue
  | repeated
  deriving DecidableEq

/-- What values a parameter takes. A path is not empty, and a number has at most 64 bits. -/
inductive ValueKind
  | text
  | path
  | number
  | choice (names : List String)
  deriving DecidableEq

inductive OptionEffect
  | counts
  | switches
  | takes (kind : ValueKind)
  | asks (fault : UsageFault)
  deriving DecidableEq

structure OptionRule where
  name : String
  letter : Option Char
  effect : OptionEffect
  deriving DecidableEq

structure Grammar where
  options : List OptionRule
  positionals : List (String × ValueKind)
  commands : List String

def number? (s : String) : Option Nat :=
  let digits := match s.toList with
    | '+' :: rest => rest
    | cs => cs
  if digits = [] ∨ digits.any (!·.isDigit) then none
  else
    let n := digits.foldl (fun n c => n * 10 + (c.toNat - 48)) 0
    if n < UInt64.size then some n else none

def ValueKind.check (s : String) : ValueKind → Except UsageFault Unit
  | .text => .ok ()
  | .path => if s = "" then .error .invalidValue else .ok ()
  | .number => if (number? s).isNone then .error .invalidNumber else .ok ()
  | .choice names => if names.contains s then .ok () else .error .invalidValue

inductive Unsettled
  | nothing
  | awaiting (name : String)
  | given (name : String) (kind : ValueKind) (value : String)
  deriving DecidableEq

structure CommandScan where
  values : List (String × String)
  switches : List String
  unsettled : Unsettled
  due : Option ValueKind
  placed : Nat

namespace CommandScan

def empty : CommandScan := ⟨[], [], .nothing, none, 0⟩

variable (s : CommandScan)

def isBlank : Bool := s.values.isEmpty && s.switches.isEmpty

def keep (name : String) (kind : ValueKind) (value : String) : Except UsageFault CommandScan := do
  if (s.values.lookup name).isSome then throw .repeated
  kind.check value
  return { s with values := (name, value) :: s.values, unsettled := .nothing, due := none }

def settle : Except UsageFault CommandScan :=
  match s.unsettled with
  | .nothing => .ok s
  | .awaiting _ => .error .invalidValue
  | .given name kind value => s.keep name kind value

def switch (o : OptionRule) : Except UsageFault CommandScan := do
  let s ← s.settle
  match o.effect with
  | .asks fault => throw fault
  | .switches =>
      if s.switches.contains o.name then throw .repeated
      return { s with switches := o.name :: s.switches }
  | _ => return { s with switches := o.name :: s.switches }

def attach (o : OptionRule) (kind : ValueKind) (value : String) : Except UsageFault CommandScan := do
  (← s.settle).keep o.name kind value

def await (o : OptionRule) (kind : ValueKind) : Except UsageFault CommandScan := do
  return { (← s.settle) with unsettled := .awaiting o.name, due := some kind }

def supply (value : String) : CommandScan :=
  match s.unsettled, s.due with
  | .awaiting name, some kind => { s with unsettled := .given name kind value, due := none }
  | _, _ => s

def place (rules : List (String × ValueKind)) (value : String) :
    Except UsageFault (Option CommandScan) := do
  match rules[s.placed]? with
  | none => return none
  | some (name, kind) =>
      return some { (← s.settle) with
        unsettled := .given name kind value, due := none, placed := s.placed + 1 }

end CommandScan

namespace Grammar

variable (g : Grammar)

/-- Options by their letters. The first that takes a value takes what follows it, less an equals
sign in front. -/
def scanLetters (s : CommandScan) : List Char → Except UsageFault CommandScan
  | [] => .ok s
  | c :: rest =>
      match g.options.find? (·.letter = some c) with
      | none => .error .unknownParameter
      | some o =>
          match o.effect, rest with
          | .takes kind, [] => s.await o kind
          | .takes kind, '=' :: value => s.attach o kind (String.ofList value)
          | .takes kind, value => s.attach o kind (String.ofList value)
          | _, _ => do scanLetters (← s.switch o) rest

def scanName (s : CommandScan) (word : List Char) : Except UsageFault CommandScan :=
  let name := word.takeWhile (· ≠ '=')
  let value? := match word.dropWhile (· ≠ '=') with
    | [] => none
    | _ :: value => some (String.ofList value)
  match g.options.find? (·.name = String.ofList name) with
  | none => .error .unknownParameter
  | some o =>
      match o.effect, value? with
      | .takes kind, some value => s.attach o kind value
      | .takes kind, none => s.await o kind
      | _, some _ => .error .unexpectedValue
      | _, none => s.switch o

def misplaced (word : String) (escaped : Bool) : UsageFault :=
  if g.commands = [] then .unknownParameter
  else if escaped ∧ g.commands.contains word then .unknownParameter
  else .unknownCommand

def scanEscaped (s : CommandScan) : List String → Except UsageFault CommandScan
  | [] => .ok s
  | word :: rest => do
      match ← s.place g.positionals word with
      | none => throw (g.misplaced word true)
      | some s => scanEscaped s rest

/-- A value is checked when the next parameter is met or the line ends, so that of two faults the
one that is met first counts, save that an unknown word does not wait for the value before it. -/
def scan (s : CommandScan) :
    List String → Except UsageFault (CommandScan × Option (String × List String))
  | [] => .ok (s, none)
  | word :: rest =>
      if s.due.isNone ∧ g.commands.contains word then .ok (s, some (word, rest))
      else match word.toList with
        | ['-', '-'] => do return (← g.scanEscaped s rest, none)
        | '-' :: '-' :: name => do scan (← g.scanName s name) rest
        | '-' :: c :: letters => do scan (← g.scanLetters s (c :: letters)) rest
        | _ =>
            if s.due.isSome then scan (s.supply word) rest
            else do
              match ← s.place g.positionals word with
              | none => throw (g.misplaced word false)
              | some s => scan s rest

def parse (words : List String) : Except UsageFault CommandScan := do
  let (s, _) ← g.scan .empty words
  let s ← s.settle
  if s.placed < g.positionals.length then throw .parameterMissing
  return s

end Grammar

end Concordance
