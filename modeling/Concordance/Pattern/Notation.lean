import Concordance.Pattern.Match

namespace Concordance.Pattern

def escaped (c : Char) : Option CharItem :=
  match c with
  | 'd' => some (.digit true)
  | 'D' => some (.digit false)
  | 's' => some (.space true)
  | 'S' => some (.space false)
  | 'n' => some (.range '\n' '\n')
  | 't' => some (.range '\t' '\t')
  | 'r' => some (.range '\r' '\r')
  | 'f' => some (.range '\x0C' '\x0C')
  | 'v' => some (.range '\x0B' '\x0B')
  | 'a' => some (.range '\x07' '\x07')
  | c =>
      if c.toNat < 128 ∧ ¬c.isAlphanum ∧ c ≠ '<' ∧ c ≠ '>' then some (.range c c) else none

def classItem : List Char → Option (CharItem × List Char)
  | '\\' :: c :: rest => (escaped c).map (·, rest)
  | '\\' :: [] | '[' :: _ | [] => none
  | c :: rest => some (.range c c, rest)

def rangeOf? : CharItem → CharItem → Option CharItem
  | .range a b, .range c d => if a = b ∧ c = d ∧ a ≤ c then some (.range a c) else none
  | _, _ => none

def isOperation : List Char → Bool
  | '&' :: '&' :: _ | '-' :: '-' :: _ | '~' :: '~' :: _ => true
  | _ => false

/-- The items of a class up to its bracket, which stands for itself in front of all others. -/
def classItems : Nat → Bool → List Char → Option (List CharItem × List Char)
  | 0, _, _ => none
  | n + 1, isFirst, s =>
      match s, isFirst with
      | ']' :: rest, false => some ([], rest)
      | s, _ => do
          let (a, rest) ← classItem s
          if isOperation s || isOperation rest then none
          match rest with
          | '-' :: d :: rest =>
              if d = ']' then
                let (items, s) ← classItems n false ('-' :: d :: rest)
                return (a :: items, s)
              else
                let (b, s) ← classItem (d :: rest)
                let r ← rangeOf? a b
                let (items, s) ← classItems n false s
                return (r :: items, s)
          | s =>
              let (items, s) ← classItems n false s
              return (a :: items, s)

def charClass (s : List Char) : Option (Pattern × List Char) := do
  let (inside, s) := match s with
    | '^' :: rest => (false, rest)
    | s => (true, s)
  let (items, s) ← classItems (s.length + 1) true s
  return (.one ⟨inside, items⟩, s)

def number? (s : List Char) : Option Nat :=
  if s ≠ [] ∧ s.all Char.isDigit then some (s.foldl (fun n c => n * 10 + (c.toNat - '0'.toNat)) 0)
  else none

def counts (s : List Char) : Option ((Nat × Option Nat) × List Char) :=
  match s.span (· ≠ '\x7d') with
  | (inner, _ :: rest) =>
      match inner.span (· ≠ ',') with
      | (m, []) => (number? m).map fun m => ((m, some 0), rest)
      | (m, [_]) => (number? m).map fun m => ((m, none), rest)
      | (m, _ :: n) => do
          let m ← number? m
          let n ← number? n
          if n < m then none else some ((m, some (n - m)), rest)
  | (_, []) => none

def repetition (s : List Char) : Option (Option ((Nat × Option Nat) × Bool × List Char)) :=
  let eagerness (bounds : Nat × Option Nat) :
      List Char → Option ((Nat × Option Nat) × Bool × List Char)
    | '?' :: rest => some (bounds, false, rest)
    | rest => some (bounds, true, rest)
  match s with
  | '*' :: rest => some (eagerness (0, none) rest)
  | '+' :: rest => some (eagerness (1, none) rest)
  | '?' :: rest => some (eagerness (0, some 1) rest)
  | '\x7b' :: rest => (counts rest).map fun (bounds, rest) => eagerness bounds rest
  | _ => some none

def repetitions : Nat → Pattern → List Char → Option (Pattern × List Char)
  | 0, _, _ => none
  | n + 1, p, s =>
      match repetition s with
      | none => none
      | some none => some (p, s)
      | some (some ((least, extra), eager, rest)) =>
          repetitions n (.repeated p least extra eager) rest

def groupStart : List Char → Option (List Char)
  | '?' :: ':' :: rest => some rest
  | '?' :: 'P' :: '<' :: rest | '?' :: '<' :: rest =>
      match rest.span (· ≠ '>') with
      | (_ :: _, _ :: inner) => some inner
      | _ => none
  | '?' :: _ => none
  | s => some s

mutual

def alternatives : Nat → List Char → Option (Pattern × List Char)
  | 0, _ => none
  | n + 1, s => do
      let (p, s) ← sequence n s
      match s with
      | '|' :: s =>
          let (q, s) ← alternatives n s
          return (.alt p q, s)
      | s => return (p, s)

def sequence : Nat → List Char → Option (Pattern × List Char)
  | 0, _ => none
  | n + 1, s =>
      match s with
      | [] | '|' :: _ | ')' :: _ => some (.empty, s)
      | s => do
          let (p, s) ← part n s
          let (p, s) ← repetitions (s.length + 1) p s
          let (q, s) ← sequence n s
          return (.seq p q, s)

def part : Nat → List Char → Option (Pattern × List Char)
  | 0, _ => none
  | n + 1, s =>
      match s with
      | '(' :: s => do
          let (p, s) ← alternatives n (← groupStart s)
          match s with
          | ')' :: s => return (p, s)
          | _ => none
      | '[' :: s => charClass s
      | '\\' :: c :: s => (escaped c).map fun i => (.one ⟨true, [i]⟩, s)
      | '.' :: s => some (.one ⟨false, [.range '\n' '\n']⟩, s)
      | '^' :: s => some (.textStart, s)
      | '$' :: s => some (.textEnd, s)
      | c :: s => if c ∈ ['*', '+', '?', '\x7b', '\\'] then none else some (.char c, s)
      | [] => none

end

/-- Of the notations for patterns literal characters, `.`, `^`, `$`, classes in brackets, groups,
alternatives, and the repetitions `*`, `+`, `?` and `{m,n}`, each reluctant with a `?` behind it. -/
def parse? (s : String) : Option Pattern :=
  match alternatives (4 * s.toList.length + 4) s.toList with
  | some (p, []) => some p
  | _ => none

def engine : Engine := fun source =>
  match parse? source with
  | some p => .ok p.hits
  | none => .error source

end Concordance.Pattern
