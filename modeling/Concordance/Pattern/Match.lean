import Concordance.Pattern.Basic

namespace Concordance.Pattern

/-- A place in a text: the number of bytes before it and the characters behind it. -/
structure Place where
  offset : Nat
  ahead : List Char

def Place.begin (s : String) : Place := ⟨0, s.toList⟩

def Place.next? (s : Place) : Option (Char × Place) :=
  match s.ahead with
  | [] => none
  | c :: rest => some (c, ⟨s.offset + c.utf8Size, rest⟩)

/-- What is still to be matched, given where the part before it ended. -/
abbrev Goal := Place → Option Place

def times (round : Goal → Goal) : Nat → Goal → Goal
  | 0, goal => goal
  | n + 1, goal => round (times round n goal)

@[macro_inline]
def prefer {α : Type} (eager : Bool) (again stop : Option α) : Option α :=
  if eager then again.or stop else stop.or again

/-- At most so many rounds, of which any may take nothing. -/
def upTo (round : Goal → Goal) (eager : Bool) (goal : Goal) : Nat → Goal
  | 0, s => goal s
  | n + 1, s => prefer eager (round (upTo round eager goal n) s) (goal s)

/-- Rounds that take at least one character each, at most one for each item of a list. -/
def further {α : Type} (round : Goal → Goal) (eager : Bool) (goal : Goal) : List α → Goal
  | [], s => goal s
  | _ :: left, s =>
      let again : Goal := fun t =>
        if s.offset < t.offset then further round eager goal left t else none
      prefer eager (round again s) (goal s)

def onceOrMore (round : Goal → Goal) (eager : Bool) (goal : Goal) : Goal := fun s =>
  round (fun t => if s.offset < t.offset then further round eager goal t.ahead t else goal t) s

/-- The end of the preferred match from a place, among those from which the goal is reached. -/
def matchThen : Pattern → Goal → Goal
  | .empty, goal, s => goal s
  | .one set, goal, s =>
      match s.next? with
      | some (c, t) => if set.has c then goal t else none
      | none => none
  | .seq p q, goal, s => p.matchThen (q.matchThen goal) s
  | .alt p q, goal, s => (p.matchThen goal s).or (q.matchThen goal s)
  | .repeated p least (some n) eager, goal, s =>
      times p.matchThen least (upTo p.matchThen eager goal n) s
  | .repeated p 0 none eager, goal, s =>
      prefer eager (onceOrMore p.matchThen eager goal s) (goal s)
  | .repeated p (n + 1) none eager, goal, s =>
      times p.matchThen n (onceOrMore p.matchThen eager goal) s
  | .textStart, goal, s => if s.offset = 0 then goal s else none
  | .textEnd, goal, s => if s.ahead = [] then goal s else none

def matchAt (p : Pattern) (s : Place) : Option Place := p.matchThen some s

structure Hit where
  start : Place
  stop : Place

def Hit.isEmpty (h : Hit) : Bool := h.start.offset = h.stop.offset

/-- What makes of a written pattern the search for its matches in a text, or tells what is wrong
with it. -/
abbrev Engine := String → Except String (String → List Hit)

def firstHitFrom (p : Pattern) (offset : Nat) : List Char → Option Hit
  | [] => (p.matchAt ⟨offset, []⟩).map (⟨⟨offset, []⟩, ·⟩)
  | c :: rest =>
      match p.matchAt ⟨offset, c :: rest⟩ with
      | some t => some ⟨⟨offset, c :: rest⟩, t⟩
      | none => firstHitFrom p (offset + c.utf8Size) rest

def firstHit (p : Pattern) (s : Place) : Option Hit := firstHitFrom p s.offset s.ahead

/-- At most `n` matches from a place on. Unless `fresh`, a match has just ended there, so that an
empty one at the same place is passed over. -/
def hitsFrom (p : Pattern) : Nat → Bool → Place → List Hit
  | 0, _, _ => []
  | n + 1, fresh, s =>
      match p.firstHit s with
      | none => []
      | some h =>
          if !fresh && h.isEmpty && h.stop.offset = s.offset then
            match s.next? with
            | none => []
            | some (_, t) =>
                match p.firstHit t with
                | none => []
                | some h => h :: hitsFrom p n false h.stop
          else h :: hitsFrom p n false h.stop

/-- All matches in a text from left to right: there is at most one for each place in it. -/
def hits (p : Pattern) (s : String) : List Hit :=
  p.hitsFrom (s.toList.length + 1) true (.begin s)

end Concordance.Pattern
