import Mathlib.Data.List.DropRight
import Concordance.Proofs.RouteSearch

namespace Concordance.Proofs.DocumentIds

open Text Pieces Words Delimiters RouteSearch
open Index Catalog Outcomes Scripts UpdateFiles BuildOrder

section

variable {p q : Char → Bool} {c : Char} {s m before behind : List Char}

/-- No character of the class stands at an end. -/
structure Bounded (q : Char → Bool) (s : List Char) : Prop where
  head : ∀ c ∈ s.head?, q c = false
  last : ∀ c ∈ s.getLast?, q c = false

theorem dropWhile_of_head (h : ∀ c ∈ s.head?, q c = false) : s.dropWhile q = s := by
  cases s with
  | nil => rfl
  | cons c s => exact List.dropWhile_cons_of_neg (by simpa using h)

theorem bounded_stripChars (q : Char → Bool) (s : List Char) : Bounded q (stripChars q s) := by
  have hstrip : stripChars q s = (s.dropWhile q).rdropWhile q := rfl
  rw [hstrip]
  constructor
  · intro c hc
    obtain ⟨rest, hrest⟩ := List.rdropWhile_prefix q (s.dropWhile q)
    have hhead := List.head?_dropWhile_not q s
    rw [← hrest, List.head?_append_of_ne_nil _ (by rintro hnil; simp [hnil] at hc)] at hhead
    simpa [Option.mem_def.mp hc] using hhead
  · intro c hc
    obtain ⟨hne, rfl⟩ := List.mem_getLast?_eq_getLast hc
    simpa using List.rdropWhile_last_not q (s.dropWhile q) hne

theorem stripChars_of_bounded (h : Bounded q m) (hbefore : ∀ c ∈ before, q c = true)
    (hbehind : ∀ c ∈ behind, q c = true) : stripChars q (before ++ m ++ behind) = m := by
  have hlast : ∀ c ∈ m.reverse.head?, q c = false := by
    rw [List.head?_reverse]
    exact h.last
  have hafter : ∀ c ∈ behind.reverse, q c = true := by simpa using hbehind
  rw [stripChars, List.append_assoc, List.dropWhile_append_of_pos hbefore]
  cases m with
  | nil =>
      have hnil : behind.dropWhile q = [] := List.dropWhile_eq_nil_iff.mpr hbehind
      rw [List.nil_append, hnil]
      rfl
  | cons c m =>
      have hhead : ∀ d ∈ (c :: m ++ behind).head?, q d = false := h.head
      rw [dropWhile_of_head hhead, List.reverse_append, List.dropWhile_append_of_pos hafter,
        dropWhile_of_head hlast, List.reverse_reverse]

theorem stripChars_eq_self_iff (q : Char → Bool) (s : List Char) :
    stripChars q s = s ↔ Bounded q s := by
  constructor
  · intro h
    rw [← h]
    exact bounded_stripChars q s
  · intro h
    simpa using stripChars_of_bounded h (List.forall_mem_nil _) (List.forall_mem_nil _)

theorem stripChars_stripChars (h : Bounded p (stripChars q (stripChars p s))) :
    stripChars (fun c => p c || q c) s = stripChars q (stripChars p s) := by
  obtain ⟨before, behind, hs, hbefore, hbehind⟩ := stripChars_split p s
  obtain ⟨before', behind', hs', hbefore', hbehind'⟩ := stripChars_split q (stripChars p s)
  have hbounded := bounded_stripChars q (stripChars p s)
  have hall : s = (before ++ before') ++ stripChars q (stripChars p s) ++ (behind' ++ behind) := by
    rw [hs'] at hs
    simpa using hs
  have hboth : Bounded (fun c => p c || q c) (stripChars q (stripChars p s)) :=
    ⟨fun c hc => by rw [h.head c hc, hbounded.head c hc, Bool.or_self],
      fun c hc => by rw [h.last c hc, hbounded.last c hc, Bool.or_self]⟩
  rw [hall, stripChars_of_bounded hboth, ← hall]
  · exact List.forall_mem_append.mpr ⟨fun c hc => by rw [hbefore c hc, Bool.true_or],
      fun c hc => by rw [hbefore' c hc, Bool.or_true]⟩
  · exact List.forall_mem_append.mpr ⟨fun c hc => by rw [hbehind' c hc, Bool.or_true],
      fun c hc => by rw [hbehind c hc, Bool.true_or]⟩

/-- Putting one character of the second class in front is undone, unless the first takes something
from the other end: then what is left is too short. -/
theorem stripChars_cons_eq_iff (hp : p c = false) (hq : q c = true) (hm : Bounded q m) :
    stripChars q (stripChars p (c :: m)) = m ↔ Bounded p (c :: m) := by
  constructor
  · intro h
    obtain ⟨t, ht⟩ := stripChars_cons hp m
    obtain ⟨before, behind, hall, -, -⟩ := stripChars_split p (c :: m)
    obtain ⟨before', behind', hrest, -, -⟩ := stripChars_split q (stripChars p (c :: m))
    have hcut : stripChars p (c :: m) ≠ m := by
      intro heq
      have hhead : q c = false := hm.head c (by rw [← heq, ht]; rfl)
      rw [hq] at hhead
      cases hhead
    have hsome : 0 < before'.length + behind'.length := by
      by_contra hnone
      have hnil : before' = [] ∧ behind' = [] := by
        rw [← List.length_eq_zero_iff, ← List.length_eq_zero_iff]
        omega
      rw [hnil.1, hnil.2, h, List.nil_append, List.append_nil] at hrest
      exact hcut hrest
    have hlength := congrArg List.length hall
    have hlength' := congrArg List.length hrest
    rw [List.length_append, List.length_append, List.length_cons] at hlength
    rw [List.length_append, List.length_append, h] at hlength'
    have hnil : before = [] ∧ behind = [] := by
      rw [← List.length_eq_zero_iff, ← List.length_eq_zero_iff]
      omega
    rw [hnil.1, hnil.2, List.nil_append, List.append_nil] at hall
    exact (stripChars_eq_self_iff p (c :: m)).mp hall.symm
  · intro h
    rw [(stripChars_eq_self_iff p (c :: m)).mpr h]
    simpa using stripChars_of_bounded hm (List.forall_mem_singleton.mpr hq) (List.forall_mem_nil _)

end

theorem trim_eq_self_iff (s : String) : trim s = s ↔ Bounded isWhiteSpace s.toList := by
  rw [← stripChars_eq_self_iff, ← String.toList_inj, trim, strip, String.toList_ofList]

variable {d e : Document}

def isEdge (c : Char) : Bool := isWhiteSpace c || isSlash c

/-- The route without white space and slashes at its ends. -/
def core (d : Document) : String := strip isEdge d.route

def inner (d : Document) : List Char := stripChars isSlash (stripChars isWhiteSpace d.route.toList)

/-- The slashes at the ends of the route enclose no white space at theirs. -/
def Snug (d : Document) : Prop := Bounded isWhiteSpace (inner d)

theorem id_toList (d : Document) : d.id.toList = '/' :: inner d := by
  rw [toList_id, trim, strip, String.toList_ofList, inner]

theorem bounded_inner (d : Document) : Bounded isSlash (inner d) := bounded_stripChars isSlash _

theorem id_eq_iff (d : Document) (s : String) : d.id = "/" ++ s ↔ inner d = s.toList := by
  rw [← String.toList_inj, id_toList, String.toList_append]
  exact List.cons_inj_right '/'

theorem id_eq_core_iff (d : Document) : d.id = "/" ++ core d ↔ Snug d := by
  rw [id_eq_iff, core, strip, String.toList_ofList]
  constructor
  · intro h
    have hbounded := bounded_stripChars isEdge d.route.toList
    rw [← h] at hbounded
    exact ⟨fun c hc => (Bool.or_eq_false_iff.mp (hbounded.head c hc)).1,
      fun c hc => (Bool.or_eq_false_iff.mp (hbounded.last c hc)).1⟩
  · intro h
    exact (stripChars_stripChars h).symm

theorem getLast?_id (d : Document) : d.id.toList.getLast? = some '/' ↔ d.id = "/" := by
  constructor
  · intro h
    rw [← String.append_empty (s := "/"), id_eq_iff]
    by_contra hne
    rw [id_toList, List.getLast?_cons_of_ne_nil hne] at h
    exact absurd ((bounded_inner d).last '/' h) (by decide)
  · intro h
    rw [h]
    rfl

theorem trim_id_iff (d : Document) : trim d.id = d.id ↔ Bounded isWhiteSpace ('/' :: inner d) := by
  rw [trim_eq_self_iff, id_toList]

theorem id_eq_of_route_iff (h : e.route = d.id) : e.id = d.id ↔ trim d.id = d.id := by
  have hroute : e.route.toList = '/' :: inner d := by rw [h, id_toList]
  rw [← String.toList_inj, id_toList, id_toList, List.cons_inj_right, inner, hroute, trim_id_iff]
  exact stripChars_cons_eq_iff (by decide) rfl (bounded_inner d)

theorem trim_id_of_snug (h : Snug d) : trim d.id = d.id := by
  rw [trim_id_iff]
  have hslash : isWhiteSpace '/' = false := by decide
  refine ⟨by simpa using hslash, ?_⟩
  intro c hc
  by_cases hne : inner d = []
  · rw [hne] at hc
    obtain rfl : '/' = c := by simpa using hc
    exact hslash
  · rw [List.getLast?_cons_of_ne_nil hne] at hc
    exact h.last c hc

theorem id_eq_id_iff (hcore : core e = core d) (hd : Snug d) : e.id = d.id ↔ Snug e := by
  rw [(id_eq_core_iff d).mpr hd, ← hcore, id_eq_core_iff]

section

variable {ds : List Document}

theorem addAll_cases (b : Builder) (docs : List Ranking.Source) :
    (∃ b', b.addAll docs = .ok b') ∨ ∃ id, b.addAll docs = .error (.duplicateDocument id) := by
  induction docs generalizing b with
  | nil => exact .inl ⟨b, rfl⟩
  | cons x docs ih =>
      change (∃ b', (b.add x.1 x.2.1 x.2.2 >>= fun b => b.addAll docs) = .ok b') ∨
        ∃ id, (b.add x.1 x.2.1 x.2.2 >>= fun b => b.addAll docs) = .error (.duplicateDocument id)
      rw [Builder.add]
      split
      · exact .inr ⟨x.1, rfl⟩
      · exact ih _

theorem addAll_duplicate (h : ¬ (ds.map Document.id).Nodup) (c : Analysis.AnalyzerConfig)
    (f : Field) :
    ∃ id, (Builder.ofConfig c).addAll (sources f ds) = .error (.duplicateDocument id) := by
  rcases addAll_cases (Builder.ofConfig c) (sources f ds) with ⟨b, hb⟩ | hduplicate
  · have hnodup := (Taken.of_addAll (Ranking.taken_ofConfig c) hb).nodup
    have hids : (sources f ds).map Ranking.Source.id =
        (ds.map Document.id).map Bytes.ofString := by
      rw [sources, List.map_map, List.map_map]
      rfl
    rw [List.nil_append, hids] at hnodup
    exact absurd hnodup.of_map h
  · exact hduplicate

theorem update_duplicate (h : ¬ (ds.map Document.id).Nodup) (cat : Catalog) (s : Storage) :
    ∃ id, Serving.update ds (cat, s) = .error (.index (.duplicateDocument id)) (cat, s) := by
  choose id hid using addAll_duplicate h cat.config
  have hbuilding : ∀ f, building cat.config ds f = .fail (.index (.duplicateDocument (id f))) := by
    intro f
    rw [building, hid f]
    rfl
  have hrun : (updating cat.config ds).run s = .error (.index (.duplicateDocument (id .routes))) s := by
    rw [updating, publishing]
    simp only [Field.all, buildingAll, hbuilding]
    rfl
  rw [update_eq, hrun]
  exact ⟨_, rfl⟩

theorem not_nodup_of_sublist (hids : e.id = d.id) (h : [d, e].Sublist ds) :
    ¬ (ds.map Document.id).Nodup := by
  intro hnodup
  have hpair := hnodup.sublist (h.map Document.id)
  simp [hids] at hpair

end

/-- An id begins with a slash, and ends with one only if it is nothing else. As a route it is its own
id, unless white space stands at its end. It is a slash and the route without white space and slashes
at its ends exactly if the slashes there enclose no white space at their side, and then white space
stands at no end of it. Of routes that differ in their ends alone, all those have one id of which
this holds, and no other has it, so that no update takes two of them. -/
theorem id_normal (d : Document) :
    d.id.toList.head? = some '/' ∧ (d.id.toList.getLast? = some '/' ↔ d.id = "/") ∧
      (∀ e : Document, e.route = d.id → (e.id = d.id ↔ trim d.id = d.id)) ∧
      (d.id = "/" ++ core d ↔ Snug d) ∧
      (Snug d → trim d.id = d.id ∧ ∀ e : Document, core e = core d → (e.id = d.id ↔ Snug e) ∧
        ∀ ds : List Document, Snug e → [d, e].Sublist ds → ∀ (cat : Catalog) (s : Storage),
          ∃ id, Serving.update ds (cat, s) = .error (.index (.duplicateDocument id)) (cat, s)) := by
  refine ⟨by rw [id_toList]; rfl, getLast?_id d, fun e => id_eq_of_route_iff, id_eq_core_iff d,
    fun hd => ⟨trim_id_of_snug hd, fun e hcore => ?_⟩⟩
  have hiff := id_eq_id_iff hcore hd
  exact ⟨hiff, fun ds he hsub => update_duplicate (not_nodup_of_sublist (hiff.mpr he) hsub)⟩

def plain : Document := { route := "guides/setup" }

def decorated : Document := { route := " //guides/setup/ " }

theorem id_normal_guides : plain.id = "/guides/setup" ∧ decorated.id = plain.id ∧
    ∀ (cat : Catalog) (s : Storage), ∃ id, Serving.update [plain, decorated] (cat, s) =
      .error (.index (.duplicateDocument id)) (cat, s) := by
  have hid : plain.id = "/guides/setup" := by decide +kernel
  have hids : decorated.id = plain.id := by decide +kernel
  obtain ⟨-, -, -, hcore, hnormal⟩ := id_normal plain
  have hplain : Snug plain := hcore.mp (by decide +kernel)
  obtain ⟨hiff, hrefused⟩ := (hnormal hplain).2 decorated (by decide +kernel)
  exact ⟨hid, hids, hrefused _ (hiff.mp hids) (List.Sublist.refl _)⟩

/-- White space that the slashes enclose comes to light when they are gone. The id of such an id is
another one, and so is that of the route without slashes. -/
theorem id_unsettled :
    ({ route := "/ a /" } : Document).id = "/ a " ∧
      ({ route := "/ a " } : Document).id = "/ a" ∧
      core { route := "a" } = core { route := "/ a /" } ∧
      ({ route := "a" } : Document).id = "/a" := by
  decide +kernel

end Concordance.Proofs.DocumentIds
