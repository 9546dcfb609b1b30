import Concordance.Pattern.Notation
import Concordance.Proofs.Matches

namespace Concordance.Proofs.Partition

open Analysis
open Pattern (Place Hit Engine)
open Words (isDelimiter run past width width_append width_pos utf8ByteSize_ofList takeBytes_width
  hitsFrom_run matchAt_run)
open Matches (Along Preference Forward Leftmost leftmost_hits forward_matchAt)

section

/-- Matches that follow one another from a place on. -/
def Follow : Place → List Hit → Prop
  | _, [] => True
  | s, h :: hs => Along s h.start ∧ Along h.start h.stop ∧ Follow h.stop hs

/-- A piece of what lies ahead of a place, between two offsets. -/
structure Cut (s : Place) (x : String × Nat × Nat) : Prop where
  lies : ∃ before behind, s.ahead = before ++ x.1.toList ++ behind ∧ x.2.1 = s.offset + width before
  stop : x.2.2 = x.2.1 + x.1.utf8ByteSize
  forward : x.2.1 < x.2.2

def Ordered (s : Place) (xs : List (String × Nat × Nat)) : Prop :=
  (∀ x ∈ xs, Cut s x) ∧ xs.Pairwise fun x y => x.2.2 ≤ y.2.1

def matched (hs : List Hit) : List (String × Nat × Nat) :=
  (hs.filter (!·.isEmpty)).map fun h => Tokenizer.between h.start h.stop

def covers (k : Nat) (x : String × Nat × Nat) : Bool := x.2.1 ≤ k ∧ k < x.2.2

variable {s t : Place} {x : String × Nat × Nat} {xs : List (String × Nat × Nat)} {h : Hit}
  {hs : List Hit}

theorem follow_of_leftmost {prefers : Preference} {last : Option Nat} (hf : Forward prefers)
    (h : Leftmost prefers last s hs) : Follow s hs := by
  induction h with
  | done _ => trivial
  | next halong hcounts _ _ ih => exact ⟨halong, hf _ _ hcounts.1, ih⟩

theorem Cut.offset_le (hx : Cut s x) : s.offset ≤ x.2.1 := by
  obtain ⟨⟨before, behind, -, hstart⟩, -, -⟩ := hx
  omega

theorem Cut.of_along (hx : Cut t x) (hst : Along s t) : Cut s x := by
  obtain ⟨⟨before, behind, hahead, hstart⟩, hstop, hforward⟩ := hx
  obtain ⟨taken, htaken, hoffset⟩ := hst
  refine ⟨⟨taken ++ before, behind, ?_, ?_⟩, hstop, hforward⟩
  · rw [htaken, hahead]
    simp only [List.append_assoc]
  · rw [hstart, hoffset, width_append, Nat.add_assoc]

theorem ordered_nil : Ordered s [] := ⟨by simp, .nil⟩

theorem Ordered.of_along (hxs : Ordered t xs) (hst : Along s t) : Ordered s xs :=
  ⟨fun x hx => (hxs.1 x hx).of_along hst, hxs.2⟩

theorem Ordered.cons (hxs : Ordered t xs) (hst : Along s t) (hx : Cut s x)
    (hstop : x.2.2 ≤ t.offset) : Ordered s (x :: xs) := by
  refine ⟨List.forall_mem_cons.mpr ⟨hx, (hxs.of_along hst).1⟩, List.pairwise_cons.mpr ⟨?_, hxs.2⟩⟩
  exact fun y hy => hstop.trans (hxs.1 y hy).offset_le

theorem cut_between (hst : Along s t) (hlt : s.offset < t.offset) :
    Cut s (Tokenizer.between s t) := by
  obtain ⟨taken, hahead, hoffset⟩ := hst
  have htext : Tokenizer.between s t = (String.ofList taken, s.offset, t.offset) := by
    rw [Tokenizer.between, hoffset, Nat.add_sub_cancel_left, hahead, takeBytes_width]
  rw [htext]
  refine ⟨⟨[], t.ahead, ?_, rfl⟩, ?_, hlt⟩
  · rw [String.toList_ofList, List.nil_append, hahead]
  · rw [utf8ByteSize_ofList, hoffset]

theorem cut_rest (h : s.ahead ≠ []) : Cut s (String.ofList s.ahead, s.offset,
    s.offset + (String.ofList s.ahead).utf8ByteSize) := by
  refine ⟨⟨[], [], ?_, rfl⟩, rfl, ?_⟩
  · rw [String.toList_ofList, List.nil_append, List.append_nil]
  · rw [utf8ByteSize_ofList]
    exact Nat.lt_add_of_pos_right (width_pos h)

theorem ordered_gapsFrom (h : Follow s hs) : Ordered s (Tokenizer.gapsFrom s hs) := by
  induction hs generalizing s with
  | nil =>
      rw [Tokenizer.gapsFrom]
      split
      · exact ordered_nil
      · rename_i hne
        exact ⟨by simpa using cut_rest hne, List.pairwise_singleton _ _⟩
  | cons h hs ih =>
      obtain ⟨hstart, hstop, hfollow⟩ := h
      have hrest := ih hfollow
      have hle := hstop.offset_le
      rw [Tokenizer.gapsFrom]
      split
      · rename_i hlt
        exact hrest.cons (hstart.trans hstop) (cut_between hstart hlt) hle
      · exact hrest.of_along (hstart.trans hstop)

theorem matched_cons (h : Hit) (hs : List Hit) : matched (h :: hs) =
    if h.start.offset = h.stop.offset then matched hs
    else Tokenizer.between h.start h.stop :: matched hs := by
  rw [matched, List.filter_cons]
  by_cases hempty : h.start.offset = h.stop.offset <;> simp [Hit.isEmpty, hempty, matched]

theorem ordered_matched (h : Follow s hs) : Ordered s (matched hs) := by
  induction hs generalizing s with
  | nil => exact ordered_nil
  | cons h hs ih =>
      obtain ⟨hstart, hstop, hfollow⟩ := h
      have hrest := ih hfollow
      rw [matched_cons]
      split
      · exact hrest.of_along (hstart.trans hstop)
      · rename_i hne
        have hlt := Nat.lt_of_le_of_ne hstop.offset_le hne
        exact (hrest.cons hstop (cut_between hstop hlt) (Nat.le_refl _)).of_along hstart

theorem countP_cons_covers (k : Nat) : (x :: xs).countP (covers k) =
    xs.countP (covers k) + if x.2.1 ≤ k ∧ k < x.2.2 then 1 else 0 := by
  rw [List.countP_cons]
  exact congrArg _ (if_congr decide_eq_true_iff rfl rfl)

/-- A byte ahead of a place lies in exactly one of the gaps and matches. -/
theorem countP_covers (h : Follow s hs) (k : Nat) :
    (Tokenizer.gapsFrom s hs).countP (covers k) + (matched hs).countP (covers k) =
      if s.offset ≤ k ∧ k < s.offset + width s.ahead then 1 else 0 := by
  induction hs generalizing s with
  | nil =>
      rw [Tokenizer.gapsFrom]
      split
      · rename_i hend
        rw [hend, if_neg (by simp [width])]
        rfl
      · rw [List.countP_singleton, utf8ByteSize_ofList]
        simp [covers, matched]
  | cons h hs ih =>
      obtain ⟨hstart, hstop, hfollow⟩ := h
      have hrest := ih hfollow
      obtain ⟨taken, hahead, hoffset⟩ := hstart.trans hstop
      have hgap : (Tokenizer.gapsFrom s (h :: hs)).countP (covers k) =
          (Tokenizer.gapsFrom h.stop hs).countP (covers k) +
            if s.offset ≤ k ∧ k < h.start.offset then 1 else 0 := by
        rw [Tokenizer.gapsFrom]
        split
        · rw [countP_cons_covers]
          rfl
        · rw [if_neg (by omega)]
          rfl
      have hmatch : (matched (h :: hs)).countP (covers k) = (matched hs).countP (covers k) +
          if h.start.offset ≤ k ∧ k < h.stop.offset then 1 else 0 := by
        rw [matched_cons]
        split
        · rw [if_neg (by omega)]
          rfl
        · rw [countP_cons_covers]
          rfl
      have hle := hstart.offset_le
      have hle' := hstop.offset_le
      rw [hgap, hmatch, hahead, width_append]
      split at hrest <;> split <;> split <;> split <;> omega

end

section

/-- Tokens that are cut out of a text: numbered from zero, none of them empty, each with the text
between its offsets, in their order. -/
structure WellCut (text : String) (ts : List Token) : Prop where
  positions : ts.map (·.position) = List.range ts.length
  nonempty : ∀ t ∈ ts, t.text ≠ "" ∧ t.start < t.stop
  lies : ∀ t ∈ ts, ∃ before behind, text = before ++ t.text ++ behind ∧
    t.start = before.utf8ByteSize ∧ t.stop = (before ++ t.text).utf8ByteSize
  ascend : ts.Pairwise fun t u => t.start < u.start ∧ t.stop < u.stop ∧ t.stop ≤ u.start

def coverage (ts : List Token) (k : Nat) : Nat := ts.countP fun t => t.start ≤ k ∧ k < t.stop

def pieceOf (t : Token) : String × Nat × Nat := (t.text, t.start, t.stop)

variable (tz : Tokenizer) (text : String)

theorem pieces_tokenize : (tz.tokenize text).map pieceOf =
    if tz.gaps then Tokenizer.gapsFrom (.begin text) (tz.find text)
    else matched (tz.find text) := by
  rw [Tokenizer.tokenize, List.map_map]
  exact List.zipIdx_map_fst 0 _

theorem positions_tokenize :
    (tz.tokenize text).map (·.position) = List.range (tz.tokenize text).length := by
  rw [Tokenizer.tokenize, List.map_map, List.length_map, List.length_zipIdx,
    List.range_eq_range']
  exact List.zipIdx_map_snd 0 _

variable {tz text}

theorem ordered_tokenize (h : Follow (.begin text) (tz.find text)) :
    Ordered (.begin text) ((tz.tokenize text).map pieceOf) := by
  rw [pieces_tokenize]
  split
  · exact ordered_gapsFrom h
  · exact ordered_matched h

theorem wellCut_tokenize (h : Follow (.begin text) (tz.find text)) :
    WellCut text (tz.tokenize text) := by
  obtain ⟨hcut, hordered⟩ := ordered_tokenize h
  rw [List.forall_mem_map] at hcut
  rw [List.pairwise_map] at hordered
  refine ⟨positions_tokenize tz text, ?_, ?_, ?_⟩
  · intro t ht
    have hstop := (hcut t ht).stop
    have hforward := (hcut t ht).forward
    refine ⟨fun hempty => ?_, hforward⟩
    rw [hstop, pieceOf, hempty] at hforward
    exact Nat.lt_irrefl _ hforward
  · intro t ht
    obtain ⟨⟨before, behind, hahead, hstart⟩, hstop, -⟩ := hcut t ht
    dsimp only [pieceOf, Place.begin] at hahead hstart hstop
    rw [Nat.zero_add] at hstart
    refine ⟨String.ofList before, String.ofList behind, ?_, ?_, ?_⟩
    · apply String.toList_inj.mp
      simp only [hahead, String.toList_append, String.toList_ofList]
    · rw [hstart, utf8ByteSize_ofList]
    · rw [hstop, hstart, String.utf8ByteSize_append, utf8ByteSize_ofList]
  · apply hordered.imp_of_mem
    intro t u ht hu hle
    have hforward : t.start < t.stop := (hcut t ht).forward
    have hforward' : u.start < u.stop := (hcut u hu).forward
    dsimp only [pieceOf] at hle
    omega

theorem coverage_eq (ts : List Token) (k : Nat) :
    coverage ts k = (ts.map pieceOf).countP (covers k) := by
  rw [List.countP_map]
  rfl

theorem coverage_tokenize {g m : Tokenizer} (h : Follow (.begin text) (m.find text))
    (hsame : g.find = m.find) (hg : g.gaps = true) (hm : m.gaps = false) {k : Nat}
    (hk : k < text.utf8ByteSize) : coverage (g.tokenize text ++ m.tokenize text) k = 1 := by
  have hsize : text.utf8ByteSize = width text.toList := by
    rw [← utf8ByteSize_ofList, String.ofList_toList]
  have hbyte := countP_covers h k
  rw [if_pos ⟨Nat.zero_le k, by simpa [Place.begin, ← hsize] using hk⟩] at hbyte
  rw [coverage_eq, List.map_append, List.countP_append, pieces_tokenize, pieces_tokenize, hg, hm,
    hsame, if_pos rfl, if_neg Bool.false_ne_true, hbyte]

end

section

/-- A stretch without characters of a class that cannot be made longer. -/
structure IsRun (q : Char → Bool) (s before w behind : List Char) : Prop where
  lies : s = before ++ w ++ behind
  nonempty : w ≠ []
  inside : ∀ c ∈ w, q c = false
  before : ∀ c ∈ before.getLast?, q c = true
  behind : ∀ c ∈ behind.head?, q c = true

variable {q : Char → Bool} {s a w b : List Char}

theorem takeWhile_run (hw : ∀ c ∈ w, q c = false) (hb : ∀ c ∈ b.head?, q c = true) :
    (w ++ b).takeWhile (fun c => !q c) = w := by
  rw [List.takeWhile_append_of_pos (by simpa using hw)]
  cases b with
  | nil => rw [List.takeWhile_nil, List.append_nil]
  | cons c b =>
      have hc : q c = true := hb c rfl
      rw [List.takeWhile_cons_of_neg (by simp [hc]), List.append_nil]

theorem not_isRun_nil : ¬IsRun q [] a w b := by
  rintro ⟨hlies, hne, -, -, -⟩
  simp [hne] at hlies

theorem IsRun.of_behind {g r : List Char} (h : IsRun q (g ++ r) (g ++ a) w b) :
    IsRun q r a w b := by
  refine ⟨?_, h.nonempty, h.inside, fun c hc => ?_, h.behind⟩
  · have hlies := h.lies
    simp only [List.append_assoc, List.append_cancel_left_eq] at hlies
    rw [hlies, List.append_assoc]
  · exact h.before c (by rw [List.getLast?_append, hc]; rfl)

theorem IsRun.append_front {g r : List Char} (h : IsRun q r a w b)
    (hg : ∀ c ∈ g.getLast?, q c = true) : IsRun q (g ++ r) (g ++ a) w b := by
  refine ⟨?_, h.nonempty, h.inside, fun c hc => ?_, h.behind⟩
  · rw [h.lies]
    simp only [List.append_assoc]
  · rw [List.getLast?_append] at hc
    cases hlast : a.getLast? with
    | none => exact hg c (by rwa [hlast, Option.none_or] at hc)
    | some e => exact h.before c (by rwa [hlast, Option.some_or, ← hlast] at hc)

theorem IsRun.eq_front {f y r : List Char} (h : IsRun q (f ++ r) a w b) (hfy : f = a ++ y)
    (hf : ∀ c ∈ f, q c = false) (hr : ∀ c ∈ r.head?, q c = true) : a = [] ∧ w = f ∧ b = r := by
  have ha : a = [] := by
    by_contra hne
    have hlast := h.before _ (List.getLast?_eq_some_getLast hne)
    rw [hf _ (hfy ▸ List.mem_append_left y (List.getLast_mem hne))] at hlast
    cases hlast
  have hlies := h.lies
  have hfirst := takeWhile_run hf hr
  rw [ha, List.nil_append] at hlies
  rw [hlies, takeWhile_run h.inside h.behind] at hfirst
  subst hfirst
  exact ⟨ha, rfl, (List.append_cancel_left hlies).symm⟩

/-- The first run ends before the first characters of the class, the others begin behind them. -/
theorem isRun_split {f d r : List Char} (hf : ∀ c ∈ f, q c = false) (hd : ∀ c ∈ d, q c = true)
    (hgap : d = [] → r = []) : IsRun q (f ++ d ++ r) a w b ↔
      (a = [] ∧ w = f ∧ b = d ++ r ∧ f ≠ []) ∨
        ∃ a', a = f ++ d ++ a' ∧ IsRun q r a' w b := by
  have hhead : ∀ c ∈ (d ++ r).head?, q c = true := by
    intro c hc
    cases d with
    | nil => simp [hgap rfl] at hc
    | cons e d => exact hd c (by simpa using Or.inl (Option.some.inj hc).symm)
  constructor
  · intro h
    have hlies := h.lies
    rw [List.append_assoc a] at hlies
    obtain ⟨a', rfl, -⟩ | ⟨z, hz, hwb⟩ := List.append_eq_append_iff.mp hlies
    · exact .inr ⟨a', rfl, h.of_behind⟩
    · obtain ⟨y, rfl, rfl⟩ | ⟨y, hfy, -⟩ := List.append_eq_append_iff.mp hz
      · cases z with
        | nil =>
            rw [List.append_nil] at h ⊢
            refine .inr ⟨[], by rw [List.append_nil], IsRun.of_behind (g := f ++ y) ?_⟩
            rwa [List.append_nil]
        | cons c z =>
            -- It would begin in the middle of the characters of the class.
            obtain ⟨e, w, rfl⟩ := List.exists_cons_of_ne_nil h.nonempty
            have he := h.inside e List.mem_cons_self
            rw [(List.cons.inj hwb).1, hd c (by simp)] at he
            cases he
      · rw [List.append_assoc] at h
        obtain ⟨ha, hw, hb⟩ := h.eq_front hfy hf hhead
        exact .inl ⟨ha, hw, hb, hw ▸ h.nonempty⟩
  · rintro (⟨rfl, rfl, rfl, hne⟩ | ⟨a', rfl, h⟩)
    · exact ⟨by simp, hne, hf, by simp, hhead⟩
    · apply h.append_front
      intro c hc
      have hne : d ≠ [] := fun hempty => not_isRun_nil (hgap hempty ▸ h)
      rw [List.getLast?_append, List.getLast?_eq_some_getLast hne] at hc
      obtain rfl : d.getLast hne = c := Option.some.inj hc
      exact hd _ (List.getLast_mem hne)

theorem isRun_whole (h : ∀ c ∈ s, q c = false) :
    IsRun q s a w b ↔ a = [] ∧ w = s ∧ b = [] ∧ s ≠ [] := by
  have hsplit := isRun_split (a := a) (w := w) (b := b) h (d := []) (r := [])
    (List.forall_mem_nil _) fun _ => rfl
  simpa only [List.append_nil, not_isRun_nil, and_false, exists_false, or_false] using hsplit

def RunAt (q : Char → Bool) (n : Nat) (s : List Char) (x : String × Nat × Nat) : Prop :=
  ∃ before w behind, IsRun q s before w behind ∧
    x = (String.ofList w, n + width before, n + width before + width w)

variable {n : Nat} {x : String × Nat × Nat}

theorem runAt_whole (h : ∀ c ∈ s, q c = false) :
    RunAt q n s x ↔ s ≠ [] ∧ x = (String.ofList s, n, n + width s) := by
  simp only [RunAt, isRun_whole h]
  constructor
  · rintro ⟨a, w, b, ⟨rfl, rfl, -, hne⟩, hx⟩
    exact ⟨hne, hx⟩
  · rintro ⟨hne, hx⟩
    exact ⟨[], s, [], ⟨rfl, rfl, rfl, hne⟩, hx⟩

theorem runAt_split {f d r : List Char} (hf : ∀ c ∈ f, q c = false) (hd : ∀ c ∈ d, q c = true)
    (hgap : d ≠ []) : RunAt q n (f ++ d ++ r) x ↔
      (f ≠ [] ∧ x = (String.ofList f, n, n + width f)) ∨
        RunAt q (n + width f + width d) r x := by
  have hoffset (a : List Char) : n + width (f ++ d ++ a) = n + width f + width d + width a := by
    rw [width_append, width_append]
    omega
  simp only [RunAt, isRun_split hf hd fun h => absurd h hgap]
  constructor
  · rintro ⟨a, w, b, ⟨rfl, rfl, -, hne⟩ | ⟨a', rfl, hrun⟩, hx⟩
    · exact .inl ⟨hne, hx⟩
    · exact .inr ⟨a', w, b, hrun, by rw [hx, hoffset]⟩
  · rintro (⟨hne, hx⟩ | ⟨a', w, b, hrun, hx⟩)
    · exact ⟨[], f, d ++ r, .inl ⟨rfl, rfl, rfl, hne⟩, hx⟩
    · exact ⟨f ++ d ++ a', w, b, .inr ⟨a', rfl, hrun⟩, by rw [hx, hoffset]⟩

theorem mem_gapsFrom_past (q : Char → Bool) {s stop : Place} {hs : List Hit} :
    x ∈ Tokenizer.gapsFrom s (⟨past q s, stop⟩ :: hs) ↔
      (s.ahead.takeWhile q ≠ [] ∧ x = (String.ofList (s.ahead.takeWhile q), s.offset,
        s.offset + width (s.ahead.takeWhile q))) ∨ x ∈ Tokenizer.gapsFrom stop hs := by
  rw [Tokenizer.gapsFrom, Words.offset_past]
  dsimp only
  by_cases hfirst : s.ahead.takeWhile q = []
  · rw [if_neg (by simp [hfirst, width]), or_iff_right fun h => h.1 hfirst]
  · have hpos := width_pos hfirst
    have hpiece : Tokenizer.between s (past q s) = (String.ofList (s.ahead.takeWhile q), s.offset,
        s.offset + width (s.ahead.takeWhile q)) := Prod.ext (Words.between_past q s) rfl
    rw [if_pos (by omega), List.mem_cons, hpiece, and_iff_right hfirst]

theorem mem_gapsFrom_run (set : CharSet) (m : Nat) (fresh : Bool) {s : Place}
    (h : s.ahead.length < m) : x ∈ Tokenizer.gapsFrom s ((run set).hitsFrom m fresh s) ↔
      RunAt set.has s.offset s.ahead x := by
  induction m generalizing fresh s with
  | zero => omega
  | succ m ih =>
      have hbefore : ∀ c ∈ s.ahead.takeWhile fun c => !set.has c, set.has c = false := by
        intro c hc
        simpa using List.mem_takeWhile_imp hc
      have hsplit := List.takeWhile_append_dropWhile (p := fun c => !set.has c) (l := s.ahead)
      rw [hitsFrom_run]
      dsimp only
      rw [Words.ahead_past]
      by_cases hend : s.ahead.dropWhile (fun c => !set.has c) = []
      · rw [hend, List.append_nil] at hsplit
        rw [hsplit] at hbefore
        rw [if_pos hend, Tokenizer.gapsFrom, runAt_whole hbefore]
        by_cases hs : s.ahead = [] <;> simp [hs, utf8ByteSize_ofList]
      · have hgap := Words.takeWhile_start_ne_nil set hend
        have hshort := Words.length_dropWhile_lt hgap
        have hsub : (s.ahead.dropWhile fun c => !set.has c).Sublist s.ahead :=
          List.dropWhile_sublist _
        have hle := hsub.length_le
        have hrest := ih false (s := past set.has (past (fun c => !set.has c) s))
          (by rw [Words.ahead_past, Words.ahead_past]; omega)
        have hrun := List.takeWhile_append_dropWhile (p := set.has)
          (l := s.ahead.dropWhile fun c => !set.has c)
        rw [← hrun, ← List.append_assoc] at hsplit
        have hcut := runAt_split (n := s.offset) (x := x)
          (r := (s.ahead.dropWhile fun c => !set.has c).dropWhile set.has) hbefore
          (fun c hc => List.mem_takeWhile_imp hc) hgap
        rw [hsplit] at hcut
        rw [if_neg hend, hcut, mem_gapsFrom_past, hrest]
        exact Iff.rfl

end

theorem mem_tokenize_standard (text : String) (x : String × Nat × Nat) :
    x ∈ (Tokenizer.standard.tokenize text).map pieceOf ↔ RunAt isDelimiter 0 text.toList x := by
  have hstandard : Tokenizer.standard.gaps = true := rfl
  rw [pieces_tokenize, hstandard, if_pos rfl]
  exact mem_gapsFrom_run Tokenizer.delimiterSet (text.toList.length + 1) true
    (s := .begin text) (Nat.lt_succ_self _)

/-- What is asked of an engine, given which match each pattern prefers from each place of a text.
It finds the leftmost matches of all patterns that it takes, and for the delimiters the longest
runs of them. -/
structure LeftmostFirst (E : Engine) (prefers : String → String → Preference) : Prop where
  forward : ∀ source text, Forward (prefers source text)
  leftmost : ∀ source find, E source = .ok find → ∀ text,
    Leftmost (prefers source text) none (.begin text) (find text)
  delimiters : ∃ find, E Tokenizer.delimiters = .ok find
  longest : ∀ text s, Along (.begin text) s → prefers Tokenizer.delimiters text s =
    if s.ahead.head?.any isDelimiter then some (past isDelimiter s) else none

section

variable {E : Engine} {prefers : String → String → Preference} {find : String → List Hit}

theorem LeftmostFirst.follow {source : String} (hE : LeftmostFirst E prefers)
    (h : E source = .ok find) (text : String) : Follow (.begin text) (find text) :=
  follow_of_leftmost (hE.forward source text) (hE.leftmost source find h text)

theorem LeftmostFirst.find_delimiters (hE : LeftmostFirst E prefers)
    (h : E Tokenizer.delimiters = .ok find) : find = Tokenizer.standard.find := by
  funext text
  have hstandard : Leftmost (run Tokenizer.delimiterSet).matchAt none (.begin text)
      (Tokenizer.standard.find text) := leftmost_hits _ text
  apply hstandard.unique (forward_matchAt _) _ (.refl _) (hE.leftmost _ find h text)
  intro s hs
  rw [hE.longest text s hs]
  exact (matchAt_run Tokenizer.delimiterSet s.offset s.ahead).symm

/-- For each pattern that the engine takes, the tokens between its matches and those that it
describes are cut out of the text, and each byte belongs to one of them. Between the matches of the
delimiters lie the runs of other characters. -/
theorem tokens_partition (hE : LeftmostFirst E prefers) :
    (∀ source find, E source = .ok find → ∃ g m, Tokenizer.ofPattern? E source true = .ok g ∧
      Tokenizer.ofPattern? E source false = .ok m ∧ ∀ text,
        WellCut text (g.tokenize text) ∧ WellCut text (m.tokenize text) ∧
        (∀ k < text.utf8ByteSize, coverage (g.tokenize text ++ m.tokenize text) k = 1) ∧
        (m.tokenize text).map (fun t => (t.start, t.stop)) =
          ((find text).filter (!·.isEmpty)).map fun h => (h.start.offset, h.stop.offset)) ∧
    ∃ g, Tokenizer.ofPattern? E Tokenizer.delimiters true = .ok g ∧ ∀ text,
      g.tokenize text = Tokenizer.standard.tokenize text ∧
      ∀ x, x ∈ (g.tokenize text).map pieceOf ↔ ∃ before w behind,
        IsRun isDelimiter text.toList before w behind ∧
          x = (String.ofList w, width before, width before + width w) := by
  constructor
  · intro source find h
    refine ⟨⟨source, find, true⟩, ⟨source, find, false⟩, by rw [Tokenizer.ofPattern?, h],
      by rw [Tokenizer.ofPattern?, h], fun text => ?_⟩
    have hfollow := hE.follow h text
    refine ⟨wellCut_tokenize hfollow, wellCut_tokenize hfollow, ?_, ?_⟩
    · intro k hk
      exact coverage_tokenize (g := ⟨source, find, true⟩) (m := ⟨source, find, false⟩) hfollow
        rfl rfl rfl hk
    · have hpieces := congrArg (List.map Prod.snd) (pieces_tokenize ⟨source, find, false⟩ text)
      rw [if_neg Bool.false_ne_true, matched, List.map_map, List.map_map] at hpieces
      exact hpieces
  · obtain ⟨find, h⟩ := hE.delimiters
    obtain rfl := hE.find_delimiters h
    refine ⟨Tokenizer.standard, by rw [Tokenizer.ofPattern?, h]; rfl, fun text => ⟨rfl, fun x => ?_⟩⟩
    rw [mem_tokenize_standard]
    simp only [RunAt, Nat.zero_add]

end

/-- The pattern of the delimiters, read from its notation. It ends with nothing, which takes nothing
from its matches. -/
theorem parse?_delimiters : Pattern.parse? Tokenizer.delimiters =
    some (.seq (run Tokenizer.delimiterSet) .empty) := by
  have hchars : Tokenizer.delimiters.toList = ['[', '\\', 's', ',', '.', ';', ':', '!', '?', '\\',
      '[', '\\', ']', '(', ')', '\'', '"', ']', '+'] := by decide +kernel
  rw [Pattern.parse?, hchars]
  decide +kernel

def parsedPrefers (source _text : String) : Preference :=
  match Pattern.parse? source with
  | some p => p.matchAt
  | none => fun _ => none

theorem leftmostFirst_engine : LeftmostFirst Pattern.engine parsedPrefers where
  forward source text := by
    rw [parsedPrefers]
    cases Pattern.parse? source with
    | some p => exact forward_matchAt p
    | none =>
        rintro s t ⟨⟩
  leftmost source find h text := by
    rw [Pattern.engine] at h
    rw [parsedPrefers]
    cases hp : Pattern.parse? source with
    | some p =>
        rw [hp] at h
        cases h
        exact leftmost_hits p text
    | none =>
        rw [hp] at h
        cases h
  delimiters := by
    rw [Pattern.engine, parse?_delimiters]
    exact ⟨_, rfl⟩
  longest text s _ := by
    rw [parsedPrefers, parse?_delimiters]
    exact matchAt_run Tokenizer.delimiterSet s.offset s.ahead

def optional : Pattern := .seq (.repeated (.char 'x') 0 (some 1) true) .empty

theorem tokens_partition_optional : LeftmostFirst Pattern.engine parsedPrefers ∧
    ∃ g m, Tokenizer.ofPattern? Pattern.engine "x?" true = .ok g ∧
      Tokenizer.ofPattern? Pattern.engine "x?" false = .ok m ∧
      g.tokenize "axéx" = [⟨"a", 0, 0, 1, false⟩, ⟨"é", 1, 2, 4, false⟩] ∧
      m.tokenize "axéx" = [⟨"x", 0, 1, 2, false⟩, ⟨"x", 1, 4, 5, false⟩] ∧
      WellCut "axéx" (g.tokenize "axéx") ∧ WellCut "axéx" (m.tokenize "axéx") ∧
      ∀ k < 5, coverage (g.tokenize "axéx" ++ m.tokenize "axéx") k = 1 := by
  have hparse : Pattern.parse? "x?" = some optional := by decide +kernel
  have hcompile : Pattern.engine "x?" = .ok optional.hits := by
    rw [Pattern.engine, hparse]
  obtain ⟨g, m, hgaps, hmatches, htokens⟩ :=
    (tokens_partition leftmostFirst_engine).1 "x?" _ hcompile
  obtain ⟨hg, hm, hbytes, -⟩ := htokens "axéx"
  refine ⟨leftmostFirst_engine, g, m, hgaps, hmatches, ?_, ?_, hg, hm, ?_⟩
  · rw [Tokenizer.ofPattern?, hcompile] at hgaps
    cases hgaps
    decide +kernel
  · rw [Tokenizer.ofPattern?, hcompile] at hmatches
    cases hmatches
    decide +kernel
  · intro k hk
    exact hbytes k (Nat.lt_of_lt_of_eq hk (by decide +kernel))

end Concordance.Proofs.Partition
