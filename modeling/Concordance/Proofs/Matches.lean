import Concordance.Proofs.Words

namespace Concordance.Proofs.Matches

open Pattern (Place Goal Hit prefer times upTo further onceOrMore)
open Words (width width_append width_pos)

section

def Along (s t : Place) : Prop :=
  ∃ taken, s.ahead = taken ++ t.ahead ∧ t.offset = s.offset + width taken

variable {s t u : Place}

theorem Along.refl (s : Place) : Along s s := ⟨[], rfl, rfl⟩

theorem Along.trans (h : Along s t) (h' : Along t u) : Along s u := by
  obtain ⟨taken, hahead, hoffset⟩ := h
  obtain ⟨taken', hahead', hoffset'⟩ := h'
  refine ⟨taken ++ taken', ?_, ?_⟩
  · rw [hahead, hahead', List.append_assoc]
  · rw [hoffset', hoffset, width_append, Nat.add_assoc]

theorem Along.offset_le (h : Along s t) : s.offset ≤ t.offset := by
  obtain ⟨taken, -, hoffset⟩ := h
  omega

theorem Along.length_le (h : Along s t) : t.ahead.length ≤ s.ahead.length := by
  obtain ⟨taken, hahead, -⟩ := h
  rw [hahead, List.length_append]
  omega

theorem Along.eq_or_lt (h : Along s t) :
    t = s ∨ s.offset < t.offset ∧ t.ahead.length < s.ahead.length := by
  obtain ⟨taken, hahead, hoffset⟩ := h
  by_cases hnone : taken = []
  · subst hnone
    obtain ⟨offset, ahead⟩ := t
    exact .inl (congrArg₂ Place.mk hoffset hahead.symm)
  · have hwidth := width_pos hnone
    have hlength := List.length_pos_of_ne_nil hnone
    rw [hahead, List.length_append]
    exact .inr (by omega)

theorem Along.total (h : Along s t) (h' : Along s u) : Along t u ∨ Along u t := by
  obtain ⟨taken, hahead, hoffset⟩ := h
  obtain ⟨taken', hahead', hoffset'⟩ := h'
  rw [hahead] at hahead'
  rcases List.append_eq_append_iff.mp hahead' with ⟨more, rfl, hrest⟩ | ⟨more, rfl, hrest⟩
  · exact .inl ⟨more, hrest, by rw [hoffset', hoffset, width_append, Nat.add_assoc]⟩
  · exact .inr ⟨more, hrest, by rw [hoffset, hoffset', width_append, Nat.add_assoc]⟩

theorem Along.eq_of_offset (h : Along s t) (h' : Along s u) (heq : t.offset = u.offset) :
    t = u := by
  rcases h.total h' with htu | hut
  · exact (htu.eq_or_lt.resolve_right fun hlt => Nat.ne_of_lt hlt.1 heq).symm
  · exact hut.eq_or_lt.resolve_right fun hlt => Nat.ne_of_lt hlt.1 heq.symm

theorem along_nil {n : Nat} (h : Along ⟨n, []⟩ t) : t = ⟨n, []⟩ :=
  h.eq_or_lt.resolve_right fun hlt => Nat.not_lt_zero _ hlt.2

theorem along_cons_iff {n : Nat} {c : Char} {rest : List Char} :
    Along ⟨n, c :: rest⟩ t ↔ t = ⟨n, c :: rest⟩ ∨ Along ⟨n + c.utf8Size, rest⟩ t := by
  constructor
  · rintro ⟨taken, hahead, hoffset⟩
    cases taken with
    | nil =>
        obtain ⟨offset, ahead⟩ := t
        exact .inl (congrArg₂ Place.mk hoffset hahead.symm)
    | cons d taken =>
        obtain ⟨rfl, hrest⟩ := List.cons.inj hahead
        refine .inr ⟨taken, hrest, ?_⟩
        simp only [hoffset, width, List.map_cons, List.sum_cons]
        omega
  · rintro (rfl | ⟨taken, hahead, hoffset⟩)
    · exact .refl _
    · refine ⟨c :: taken, congrArg (c :: ·) hahead, ?_⟩
      simp only [hoffset, width, List.map_cons, List.sum_cons]
      omega

end

section

/-- The ends of what is taken from a place on, the preferred ones first. -/
abbrev Ends := Place → List Place

/-- The ends lead to a goal from each of them, tried in their order. -/
def Tries (round : Goal → Goal) (stops : Ends) : Prop :=
  ∀ goal s, round goal s = (stops s).findSome? goal

def Onward (stops : Ends) : Prop := ∀ s, ∀ t ∈ stops s, Along s t

def preferred {α : Type} (eager : Bool) (again stop : List α) : List α :=
  if eager then again ++ stop else stop ++ again

def endsTimes (stops : Ends) : Nat → Ends
  | 0, s => [s]
  | n + 1, s => (stops s).flatMap (endsTimes stops n)

def endsUpTo (stops : Ends) (eager : Bool) : Nat → Ends
  | 0, s => [s]
  | n + 1, s => preferred eager ((stops s).flatMap (endsUpTo stops eager n)) [s]

def endsFurther {α : Type} (stops : Ends) (eager : Bool) : List α → Ends
  | [], s => [s]
  | _ :: left, s =>
      preferred eager ((stops s).flatMap fun t =>
        if s.offset < t.offset then endsFurther stops eager left t else []) [s]

def endsOnceOrMore (stops : Ends) (eager : Bool) : Ends := fun s =>
  (stops s).flatMap fun t => if s.offset < t.offset then endsFurther stops eager t.ahead t else [t]

variable {round : Goal → Goal} {stops : Ends} {eager : Bool} {goal : Goal} {s : Place}

theorem findSome?_flatMap {α β γ : Type} (f : β → Option γ) (g : α → List β) (l : List α) :
    (l.flatMap g).findSome? f = l.findSome? fun x => (g x).findSome? f := by
  induction l with
  | nil => rfl
  | cons x l ih =>
      rw [List.flatMap_cons, List.findSome?_append, ih, List.findSome?_cons]
      cases (g x).findSome? f <;> rfl

theorem findSome?_preferred (again stop : List Place) :
    (preferred eager again stop).findSome? goal =
      prefer eager (again.findSome? goal) (stop.findSome? goal) := by
  cases eager with
  | true => exact List.findSome?_append
  | false => exact List.findSome?_append

theorem Tries.bind {rest : Goal} {endsRest : Ends} (h : Tries round stops)
    (hrest : ∀ t, rest t = (endsRest t).findSome? goal) (s : Place) :
    round rest s = ((stops s).flatMap endsRest).findSome? goal := by
  rw [h, findSome?_flatMap]
  exact congrArg (List.findSome? · (stops s)) (funext hrest)

theorem tries_times (h : Tries round stops) (n : Nat) :
    Tries (times round n) (endsTimes stops n) := by
  induction n with
  | zero => exact fun goal s => List.findSome?_singleton.symm
  | succ n ih => exact fun goal s => h.bind (ih goal) s

theorem tries_upTo (h : Tries round stops) (n : Nat) :
    Tries (fun goal => upTo round eager goal n) (endsUpTo stops eager n) := by
  induction n with
  | zero => exact fun goal s => List.findSome?_singleton.symm
  | succ n ih =>
      intro goal s
      dsimp only
      rw [Pattern.upTo, endsUpTo, findSome?_preferred, h.bind (ih goal), List.findSome?_singleton]

theorem tries_further {α : Type} (h : Tries round stops) (left : List α) :
    Tries (fun goal => further round eager goal left) (endsFurther stops eager left) := by
  induction left with
  | nil => exact fun goal s => List.findSome?_singleton.symm
  | cons x left ih =>
      intro goal s
      have hagain : ∀ t : Place, (if s.offset < t.offset then further round eager goal left t
          else none) = (if s.offset < t.offset then endsFurther stops eager left t
          else []).findSome? goal := by
        intro t
        split
        · exact ih goal t
        · rfl
      dsimp only
      rw [Pattern.further, endsFurther, findSome?_preferred, h.bind hagain,
        List.findSome?_singleton]

theorem tries_onceOrMore (h : Tries round stops) :
    Tries (onceOrMore round eager) (endsOnceOrMore stops eager) := by
  intro goal s
  apply h.bind
  intro t
  split
  · exact tries_further h t.ahead goal t
  · exact List.findSome?_singleton.symm

/-- The ends of a pattern from a place: an alternative's ends stand before those of the next, and
more rounds before fewer if they are preferred. -/
def ends : Pattern → Ends
  | .empty, s => [s]
  | .one set, s =>
      match s.next? with
      | some (c, t) => if set.has c then [t] else []
      | none => []
  | .seq p q, s => (ends p s).flatMap (ends q)
  | .alt p q, s => ends p s ++ ends q s
  | .repeated p least (some n) eager, s =>
      (endsTimes (ends p) least s).flatMap (endsUpTo (ends p) eager n)
  | .repeated p 0 none eager, s => preferred eager (endsOnceOrMore (ends p) eager s) [s]
  | .repeated p (n + 1) none eager, s =>
      (endsTimes (ends p) n s).flatMap (endsOnceOrMore (ends p) eager)
  | .textStart, s => if s.offset = 0 then [s] else []
  | .textEnd, s => if s.ahead = [] then [s] else []

theorem tries_matchThen (p : Pattern) : Tries p.matchThen (ends p) := by
  induction p with
  | empty => exact fun goal s => List.findSome?_singleton.symm
  | one set =>
      intro goal s
      rw [Pattern.matchThen, ends]
      cases s.next? with
      | none => rfl
      | some x =>
          dsimp only
          split
          · exact List.findSome?_singleton.symm
          · rfl
  | seq p q ihp ihq => exact fun goal s => ihp.bind (ihq goal) s
  | alt p q ihp ihq =>
      intro goal s
      rw [Pattern.matchThen, ends, List.findSome?_append, ihp, ihq]
  | repeated p least extra eager ih =>
      intro goal s
      cases extra with
      | some n =>
          rw [Pattern.matchThen, ends]
          exact (tries_times ih least).bind (tries_upTo ih n goal) s
      | none =>
          cases least with
          | zero =>
              rw [Pattern.matchThen, ends, findSome?_preferred, tries_onceOrMore ih,
                List.findSome?_singleton]
          | succ n =>
              rw [Pattern.matchThen, ends]
              exact (tries_times ih n).bind (tries_onceOrMore ih goal) s
  | textStart =>
      intro goal s
      rw [Pattern.matchThen, ends]
      split
      · exact List.findSome?_singleton.symm
      · rfl
  | textEnd =>
      intro goal s
      rw [Pattern.matchThen, ends]
      split
      · exact List.findSome?_singleton.symm
      · rfl

theorem matchAt_eq (p : Pattern) (s : Place) : p.matchAt s = (ends p s).head? := by
  rw [Pattern.matchAt, tries_matchThen]
  cases ends p s <;> rfl

theorem mem_preferred {again stop : List Place} {t : Place} :
    t ∈ preferred eager again stop ↔ t ∈ again ∨ t ∈ stop := by
  cases eager with
  | true => exact List.mem_append
  | false => exact List.mem_append.trans or_comm

theorem onward_stay : Onward fun s => [s] := by
  intro s t ht
  rw [List.mem_singleton.mp ht]
  exact .refl s

theorem Onward.bind {rest : Ends} (h : Onward stops) (hrest : Onward rest) :
    Onward fun s => (stops s).flatMap rest := by
  intro s u hu
  obtain ⟨t, ht, hu⟩ := List.mem_flatMap.mp hu
  exact (h s t ht).trans (hrest t u hu)

theorem Onward.preferred {rest : Ends} (h : Onward stops) (hrest : Onward rest) :
    Onward fun s => preferred eager (stops s) (rest s) := by
  intro s t ht
  exact (mem_preferred.mp ht).elim (h s t) (hrest s t)

theorem onward_times (h : Onward stops) (n : Nat) : Onward (endsTimes stops n) := by
  induction n with
  | zero => exact onward_stay
  | succ n ih => exact h.bind ih

theorem onward_upTo (h : Onward stops) (n : Nat) : Onward (endsUpTo stops eager n) := by
  induction n with
  | zero => exact onward_stay
  | succ n ih => exact (h.bind ih).preferred onward_stay

theorem onward_further {α : Type} (h : Onward stops) (left : List α) :
    Onward (endsFurther stops eager left) := by
  induction left with
  | nil => exact onward_stay
  | cons x left ih =>
      refine Onward.preferred ?_ onward_stay
      intro s u hu
      obtain ⟨t, ht, hu⟩ := List.mem_flatMap.mp hu
      split at hu
      · exact (h s t ht).trans (ih t u hu)
      · cases hu

theorem onward_onceOrMore (h : Onward stops) : Onward (endsOnceOrMore stops eager) := by
  intro s u hu
  obtain ⟨t, ht, hu⟩ := List.mem_flatMap.mp hu
  split at hu
  · exact (h s t ht).trans (onward_further h t.ahead t u hu)
  · exact (List.mem_singleton.mp hu) ▸ h s t ht

theorem onward_ends (p : Pattern) : Onward (ends p) := by
  induction p with
  | empty => exact onward_stay
  | one set =>
      intro s t ht
      obtain ⟨offset, ahead⟩ := s
      cases ahead with
      | nil => cases ht
      | cons c rest =>
          rw [ends] at ht
          dsimp only [Place.next?] at ht
          split at ht
          · rw [List.mem_singleton.mp ht]
            exact along_cons_iff.mpr (.inr (.refl _))
          · cases ht
  | seq p q ihp ihq => exact ihp.bind ihq
  | alt p q ihp ihq =>
      intro s t ht
      exact (List.mem_append.mp ht).elim (ihp s t) (ihq s t)
  | repeated p least extra eager ih =>
      cases extra with
      | some n => exact (onward_times ih least).bind (onward_upTo ih n)
      | none =>
          cases least with
          | zero => exact (onward_onceOrMore ih).preferred onward_stay
          | succ n => exact (onward_times ih n).bind (onward_onceOrMore ih)
  | textStart =>
      intro s t ht
      rw [ends] at ht
      split at ht
      · exact onward_stay s t ht
      · cases ht
  | textEnd =>
      intro s t ht
      rw [ends] at ht
      split at ht
      · exact onward_stay s t ht
      · cases ht

end

section

/-- Where the match from a place ends that is preferred to all others from there. -/
abbrev Preference := Place → Option Place

variable {prefers : Preference} {p : Pattern} {s t : Place} {h : Hit} {hs : List Hit}
  {last : Option Nat}

def Forward (prefers : Preference) : Prop := ∀ s t, prefers s = some t → Along s t

/-- A match that counts if the one before it ended at some offset: not an empty one there. -/
def Counts (prefers : Preference) (last : Option Nat) (h : Hit) : Prop :=
  prefers h.start = some h.stop ∧ last ≠ some h.stop.offset

/-- The matches from a place on, each the leftmost that counts behind the one before it, until there
is none. -/
inductive Leftmost (prefers : Preference) : Option Nat → Place → List Hit → Prop
  | done {last : Option Nat} {s : Place} (none : ∀ h, Along s h.start → ¬Counts prefers last h) :
      Leftmost prefers last s []
  | next {last : Option Nat} {s : Place} {h : Hit} {hs : List Hit} (along : Along s h.start)
      (counts : Counts prefers last h)
      (first : ∀ h', Along s h'.start → h'.start.offset < h.start.offset →
        ¬Counts prefers last h')
      (rest : Leftmost prefers (some h.stop.offset) h.stop hs) : Leftmost prefers last s (h :: hs)

/-- There is only one way in which the matches can be leftmost. -/
theorem Leftmost.unique {other : Preference} {root : Place} (hf : Forward prefers)
    (hsame : ∀ t, Along root t → other t = prefers t) (hroot : Along root s) {hs' : List Hit}
    (h : Leftmost prefers last s hs) (h' : Leftmost other last s hs') : hs' = hs := by
  have hcounts : ∀ {last h}, Along root h.start →
      (Counts other last h ↔ Counts prefers last h) := by
    intro last h halong
    rw [Counts, Counts, hsame _ halong]
  induction h generalizing hs' with
  | done hnone =>
      cases h' with
      | done _ => rfl
      | next halong hc _ _ =>
          exact absurd ((hcounts (hroot.trans halong)).mp hc) (hnone _ halong)
  | @next last s h hs halong hc hfirst _ ih =>
      cases h' with
      | done hnone =>
          exact absurd ((hcounts (hroot.trans halong)).mpr hc) (hnone _ halong)
      | @next _ _ h' hs' halong' hc' hfirst' hrest' =>
          have hc' := (hcounts (hroot.trans halong')).mp hc'
          have hstart : h'.start = h.start := by
            rcases Nat.lt_trichotomy h'.start.offset h.start.offset with hlt | heq | hgt
            · exact absurd hc' (hfirst _ halong' hlt)
            · exact halong'.eq_of_offset halong heq
            · exact absurd ((hcounts (hroot.trans halong)).mpr hc) (hfirst' _ halong hgt)
          have hstop : h'.stop = h.stop := by
            have hsome := hc.1
            rw [← hstart, hc'.1] at hsome
            exact Option.some.inj hsome
          obtain ⟨start, stop⟩ := h
          obtain rfl : h' = ⟨start, stop⟩ := congrArg₂ Hit.mk hstart hstop
          have hbehind := (hroot.trans halong).trans (hf _ _ hc.1)
          rw [ih hbehind hrest']

end

section

variable {p : Pattern} {s : Place} {h : Hit} {last : Option Nat}

theorem forward_matchAt (p : Pattern) : Forward p.matchAt := by
  intro s t hst
  rw [matchAt_eq] at hst
  exact onward_ends p s t (List.mem_of_head? hst)

theorem firstHit_eq_none (hnone : p.firstHit s = none) {t : Place} (ht : Along s t) :
    p.matchAt t = none := by
  obtain ⟨offset, ahead⟩ := s
  rw [Pattern.firstHit] at hnone
  induction ahead generalizing offset with
  | nil =>
      rw [Pattern.firstHitFrom, Option.map_eq_none_iff] at hnone
      rw [along_nil ht, hnone]
  | cons c rest ih =>
      rw [Pattern.firstHitFrom] at hnone
      split at hnone
      · cases hnone
      · rename_i hhere
        rcases along_cons_iff.mp ht with rfl | ht
        · exact hhere
        · exact ih _ hnone ht

theorem firstHit_eq_some (hsome : p.firstHit s = some h) :
    Along s h.start ∧ p.matchAt h.start = some h.stop ∧
      ∀ t, Along s t → t.offset < h.start.offset → p.matchAt t = none := by
  obtain ⟨offset, ahead⟩ := s
  rw [Pattern.firstHit] at hsome
  induction ahead generalizing offset with
  | nil =>
      rw [Pattern.firstHitFrom, Option.map_eq_some_iff] at hsome
      obtain ⟨stop, hstop, rfl⟩ := hsome
      refine ⟨.refl _, hstop, fun t ht hlt => ?_⟩
      exact absurd ht.offset_le (Nat.not_le.mpr hlt)
  | cons c rest ih =>
      rw [Pattern.firstHitFrom] at hsome
      split at hsome
      · rename_i stop hstop
        cases hsome
        refine ⟨.refl _, hstop, fun t ht hlt => ?_⟩
        exact absurd ht.offset_le (Nat.not_le.mpr hlt)
      · rename_i hhere
        obtain ⟨halong, hpreferred, hfirst⟩ := ih _ hsome
        refine ⟨along_cons_iff.mpr (.inr halong), hpreferred, ?_⟩
        intro t ht hlt
        rcases along_cons_iff.mp ht with rfl | ht
        · exact hhere
        · exact hfirst t ht hlt

theorem not_counts (hnone : p.matchAt h.start = none) : ¬Counts p.matchAt last h := by
  rintro ⟨hpreferred, -⟩
  rw [hnone] at hpreferred
  cases hpreferred

theorem not_counts_at_end (hend : s.ahead = []) (halong : Along s h.start) :
    ¬Counts p.matchAt (some s.offset) h := by
  rintro ⟨hpreferred, hlast⟩
  have hstop := halong.trans (forward_matchAt p _ _ hpreferred)
  rcases hstop.eq_or_lt with hstop | ⟨-, hlength⟩
  · exact hlast (by rw [hstop])
  · simp [hend] at hlength

/-- Where an empty match does not count, those that count begin at the next character. -/
theorem Counts.along_next {n : Nat} {c : Char} {rest : List Char} {h' : Hit}
    (hcounts : Counts p.matchAt (some n) h') (halong : Along ⟨n, c :: rest⟩ h'.start)
    (hempty : p.matchAt h.start = some h.stop) (hstart : h.start = ⟨n, c :: rest⟩)
    (hstop : h.stop.offset = n) : Along ⟨n + c.utf8Size, rest⟩ h'.start := by
  rcases along_cons_iff.mp halong with hhere | hnext
  · obtain ⟨hpreferred, hlast⟩ := hcounts
    rw [hhere, ← hstart, hempty, Option.some.injEq] at hpreferred
    exact absurd (by rw [← hpreferred, hstop]) hlast
  · exact hnext

theorem Leftmost.of_next {n : Nat} {c : Char} {rest : List Char} {hs : List Hit}
    (hempty : p.matchAt h.start = some h.stop) (hstart : h.start = ⟨n, c :: rest⟩)
    (hstop : h.stop.offset = n)
    (hnext : Leftmost p.matchAt (some n) ⟨n + c.utf8Size, rest⟩ hs) :
    Leftmost p.matchAt (some n) ⟨n, c :: rest⟩ hs := by
  cases hnext with
  | done hnone =>
      refine .done fun h' halong hcounts => ?_
      exact hnone h' (hcounts.along_next halong hempty hstart hstop) hcounts
  | next halong hcounts hfirst hrest =>
      refine .next (along_cons_iff.mpr (.inr halong)) hcounts ?_ hrest
      intro h' halong' hlt hcounts'
      exact hfirst h' (hcounts'.along_next halong' hempty hstart hstop) hlt hcounts'

theorem leftmost_cons {hs : List Hit} (hfirst : p.firstHit s = some h)
    (hlast : last ≠ some h.stop.offset) (hrest : Leftmost p.matchAt (some h.stop.offset) h.stop hs) :
    Leftmost p.matchAt last s (h :: hs) := by
  obtain ⟨halong, hpreferred, hbefore⟩ := firstHit_eq_some hfirst
  exact .next halong ⟨hpreferred, hlast⟩
    (fun h' halong' hlt => not_counts (hbefore _ halong' hlt)) hrest

theorem leftmost_nil (hfirst : p.firstHit s = none) : Leftmost p.matchAt last s [] :=
  .done fun _ halong => not_counts (firstHit_eq_none hfirst halong)

theorem leftmost_passed {n : Nat} (hpreferred : p.matchAt h.start = some h.stop) (hstart : h.start = s)
    (hoffset : h.stop.offset = s.offset) (hn : s.ahead.length ≤ n + 1)
    (hrest : ∀ t : Place, t.ahead.length ≤ n →
      Leftmost p.matchAt (some t.offset) t (p.hitsFrom n false t)) :
    Leftmost p.matchAt (some s.offset) s (match s.next? with
      | none => []
      | some (_, t) =>
          match p.firstHit t with
          | none => []
          | some h => h :: p.hitsFrom n false h.stop) := by
  obtain ⟨offset, ahead⟩ := s
  cases ahead with
  | nil => exact .done fun h' halong' => not_counts_at_end rfl halong'
  | cons c rest =>
      apply Leftmost.of_next hpreferred hstart hoffset
      dsimp only [Place.next?]
      cases hfirst : p.firstHit ⟨offset + c.utf8Size, rest⟩ with
      | none => exact leftmost_nil hfirst
      | some h' =>
          obtain ⟨halong, hpreferred', -⟩ := firstHit_eq_some hfirst
          have hstop := halong.trans (forward_matchAt p _ _ hpreferred')
          have hpos := c.utf8Size_pos
          have hle := hstop.offset_le
          have hlength := hstop.length_le
          simp only [List.length_cons] at hle hlength hn
          refine leftmost_cons hfirst ?_ (hrest h'.stop (by omega))
          rw [Ne, Option.some.injEq]
          omega

/-- Behind a match there is at most one for each character that is left. -/
theorem leftmost_hitsFrom (p : Pattern) {n : Nat} {s : Place} (hn : s.ahead.length ≤ n) :
    Leftmost p.matchAt (some s.offset) s (p.hitsFrom n false s) := by
  induction n generalizing s with
  | zero =>
      have hend := List.eq_nil_of_length_eq_zero (Nat.le_zero.mp hn)
      exact .done fun h halong => not_counts_at_end hend halong
  | succ n ih =>
      rw [Pattern.hitsFrom]
      cases hfirst : p.firstHit s with
      | none => exact leftmost_nil hfirst
      | some h =>
          obtain ⟨halong, hpreferred, -⟩ := firstHit_eq_some hfirst
          have hstart := halong.offset_le
          have hle := (forward_matchAt p _ _ hpreferred).offset_le
          dsimp only
          by_cases hoffset : h.stop.offset = s.offset
          · have hempty : h.isEmpty = true := decide_eq_true (by omega)
            have hhere : h.start = s := halong.eq_or_lt.resolve_right fun hlt => by omega
            rw [if_pos (by simp [hempty, hoffset])]
            exact leftmost_passed hpreferred hhere hoffset hn fun t ht => ih ht
          · have hlt := ((halong.trans (forward_matchAt p _ _ hpreferred)).eq_or_lt.resolve_left
              fun heq => hoffset (by rw [heq])).2
            rw [if_neg (by simp [hoffset])]
            exact leftmost_cons hfirst (by simpa using Ne.symm hoffset) (ih (by omega))

/-- The matches in a text: none is left out for want of steps. -/
theorem leftmost_hits (p : Pattern) (text : String) :
    Leftmost p.matchAt none (.begin text) (p.hits text) := by
  rw [Pattern.hits, Pattern.hitsFrom]
  cases hfirst : p.firstHit (.begin text) with
  | none => exact leftmost_nil hfirst
  | some h =>
      obtain ⟨halong, hpreferred, -⟩ := firstHit_eq_some hfirst
      have hlength := (halong.trans (forward_matchAt p _ _ hpreferred)).length_le
      exact leftmost_cons hfirst (by simp) (leftmost_hitsFrom p hlength)

end

end Concordance.Proofs.Matches
