import Mathlib.Algebra.BigOperators.Group.List.Basic
import Mathlib.Algebra.GroupWithZero.Nat
import Mathlib.Data.List.TakeWhile
import Concordance.Analysis.Analyzer
import Concordance.Proofs.Pieces

namespace Concordance.Proofs.Words

open Analysis Text Pieces
open Pattern (Place Goal Hit further)

section

def width (s : List Char) : Nat := (s.map Char.utf8Size).sum

theorem width_pos {s : List Char} (h : s ≠ []) : 0 < width s := by
  obtain ⟨c, s, rfl⟩ := List.exists_cons_of_ne_nil h
  have hc := c.utf8Size_pos
  simp only [width, List.map_cons, List.sum_cons]
  omega

theorem width_append (s t : List Char) : width (s ++ t) = width s + width t := by
  rw [width, List.map_append, List.sum_append, width, width]

theorem utf8ByteSize_ofList (s : List Char) : (String.ofList s).utf8ByteSize = width s := by
  rw [← String.size_toByteArray, String.toByteArray_ofList]
  induction s with
  | nil => rfl
  | cons c s ih =>
      rw [List.utf8Encode_cons, ByteArray.size_append, ih, List.utf8Encode_singleton]
      simp [width, String.length_utf8EncodeChar]

def past (q : Char → Bool) (s : Place) : Place :=
  ⟨s.offset + width (s.ahead.takeWhile q), s.ahead.dropWhile q⟩

theorem offset_past (q : Char → Bool) (s : Place) :
    (past q s).offset = s.offset + width (s.ahead.takeWhile q) :=
  rfl

theorem ahead_past (q : Char → Bool) (s : Place) : (past q s).ahead = s.ahead.dropWhile q := rfl

theorem past_of_head {q : Char → Bool} {n : Nat} {s : List Char}
    (h : ∀ c ∈ s.head?, q c = false) : past q ⟨n, s⟩ = ⟨n, s⟩ := by
  cases s with
  | nil => rfl
  | cons c s =>
      have hc : q c = false := h c rfl
      simp [past, hc, width]

theorem past_cons {q : Char → Bool} {c : Char} (hc : q c = true) (n : Nat) (s : List Char) :
    past q ⟨n, c :: s⟩ = past q ⟨n + c.utf8Size, s⟩ := by
  simp [past, hc, width, Nat.add_assoc]

variable (set : CharSet)

def run : Pattern := .repeated (.one set) 1 none true

theorem matchThen_cons (goal : Goal) (n : Nat) (c : Char) (s : List Char) :
    Pattern.matchThen (.one set) goal ⟨n, c :: s⟩ =
      if set.has c then goal ⟨n + c.utf8Size, s⟩ else none :=
  rfl

theorem further_one {α : Type} (left : List α) {n : Nat} {s : List Char}
    (h : s.length ≤ left.length) :
    further (Pattern.matchThen (.one set)) true some left ⟨n, s⟩ = some (past set.has ⟨n, s⟩) := by
  induction left generalizing n s with
  | nil =>
      obtain rfl := List.eq_nil_of_length_eq_zero (Nat.le_zero.mp h)
      rfl
  | cons x left ih =>
      rw [further, Pattern.prefer, if_pos rfl]
      cases s with
      | nil => rfl
      | cons c s =>
          rw [matchThen_cons]
          cases hc : set.has c with
          | false =>
              rw [past_of_head (by simpa using hc)]
              rfl
          | true =>
              have hpos := c.utf8Size_pos
              have hlength : s.length ≤ left.length := by simpa using h
              rw [if_pos rfl, if_pos (Nat.lt_add_of_pos_right hpos), ih hlength, past_cons hc,
                Option.some_or]

theorem matchAt_run (n : Nat) (s : List Char) : (run set).matchAt ⟨n, s⟩ =
    if s.head?.any set.has then some (past set.has ⟨n, s⟩) else none := by
  rw [run, Pattern.matchAt, Pattern.matchThen, Pattern.times, Pattern.onceOrMore]
  cases s with
  | nil => rfl
  | cons c s =>
      rw [matchThen_cons, List.head?_cons, Option.any_some]
      cases hc : set.has c with
      | false => rfl
      | true =>
          have hpos := c.utf8Size_pos
          rw [if_pos rfl, if_pos rfl, if_pos (Nat.lt_add_of_pos_right hpos), past_cons hc]
          exact further_one set s (Nat.le_refl _)

theorem firstHit_run (n : Nat) (s : List Char) : (run set).firstHit ⟨n, s⟩ =
    let start := past (fun c => !set.has c) ⟨n, s⟩
    if start.ahead = [] then none else some ⟨start, past set.has start⟩ := by
  rw [Pattern.firstHit]
  dsimp only
  induction s generalizing n with
  | nil => rfl
  | cons c s ih =>
      rw [Pattern.firstHitFrom, matchAt_run, List.head?_cons, Option.any_some]
      cases hc : set.has c with
      | false =>
          rw [if_neg Bool.false_ne_true, past_cons (by simp [hc])]
          exact ih (n + c.utf8Size)
      | true =>
          have hstart : past (fun c => !set.has c) ⟨n, c :: s⟩ = ⟨n, c :: s⟩ :=
            past_of_head (by simp [hc])
          rw [if_pos rfl, hstart, if_neg (List.cons_ne_nil c s)]

theorem takeBytes_width (s rest : List Char) : Tokenizer.takeBytes (width s) (s ++ rest) = s := by
  induction s with
  | nil => cases rest <;> rfl
  | cons c s ih =>
      have hpos := c.utf8Size_pos
      have hwidth : width (c :: s) = c.utf8Size + width s := by simp [width]
      rw [List.cons_append, Tokenizer.takeBytes, hwidth, if_neg (by omega), Nat.add_sub_cancel_left,
        ih]

theorem between_past (q : Char → Bool) (s : Place) :
    (Tokenizer.between s (past q s)).1 = String.ofList (s.ahead.takeWhile q) := by
  have htake := takeBytes_width (s.ahead.takeWhile q) (s.ahead.dropWhile q)
  rw [List.takeWhile_append_dropWhile] at htake
  rw [Tokenizer.between, past, Nat.add_sub_cancel_left, htake]

theorem pieces_eq_of_run {q : Char → Bool} (s : List Char) :
    pieces q s = [s.takeWhile fun c => !q c].filter (· ≠ []) ++
      pieces q ((s.dropWhile fun c => !q c).dropWhile q) := by
  have hpast : ∀ t : List Char, pieces q (t.dropWhile q) = pieces q t := by
    intro t
    have hgap : ∀ c ∈ t.takeWhile q, q c = true := fun c hc => List.mem_takeWhile_imp hc
    have hsame := pieces_append_of_forall hgap (t.dropWhile q)
    rw [List.takeWhile_append_dropWhile] at hsame
    exact hsame.symm
  have hbefore : ∀ c ∈ s.takeWhile fun c => !q c, q c = false := by
    intro c hc
    simpa using List.mem_takeWhile_imp hc
  rw [hpast, ← pieces_of_forall hbefore]
  cases hrest : s.dropWhile fun c => !q c with
  | nil =>
      have hs := List.takeWhile_append_dropWhile (p := fun c => !q c) (l := s)
      rw [hrest, List.append_nil] at hs
      rw [hs, pieces_nil, List.append_nil]
  | cons c rest =>
      have hc : q c = true := by
        have hhead := List.head?_dropWhile_not (fun c => !q c) s
        simpa [hrest] using hhead
      have hs := List.takeWhile_append_dropWhile (p := fun c => !q c) (l := s)
      rw [hrest] at hs
      rw [pieces_cons hc, ← pieces_append_cons hc, hs]

theorem length_dropWhile_lt {q : Char → Bool} {s : List Char} (h : s.takeWhile q ≠ []) :
    (s.dropWhile q).length < s.length := by
  have hlength := congrArg List.length (List.takeWhile_append_dropWhile (p := q) (l := s))
  have hpos := List.length_pos_of_ne_nil h
  rw [List.length_append] at hlength
  omega

theorem takeWhile_start_ne_nil {s : List Char} (h : s.dropWhile (fun c => !set.has c) ≠ []) :
    (s.dropWhile fun c => !set.has c).takeWhile set.has ≠ [] := by
  obtain ⟨c, rest, hrest⟩ := List.exists_cons_of_ne_nil h
  have hhead := List.head?_dropWhile_not (fun c => !set.has c) s
  rw [hrest] at hhead ⊢
  simpa using hhead

theorem hitsFrom_run (m : Nat) (fresh : Bool) (s : Place) : (run set).hitsFrom (m + 1) fresh s =
    let start := past (fun c => !set.has c) s
    if start.ahead = [] then []
    else ⟨start, past set.has start⟩ :: (run set).hitsFrom m false (past set.has start) := by
  rw [Pattern.hitsFrom, firstHit_run]
  dsimp only
  by_cases hend : (past (fun c => !set.has c) s).ahead = []
  · rw [if_pos hend, if_pos hend]
  · have hwidth := width_pos (takeWhile_start_ne_nil set hend)
    have hhit : (⟨past (fun c => !set.has c) s, past set.has (past (fun c => !set.has c) s)⟩ :
        Hit).isEmpty = false := by
      rw [Hit.isEmpty, decide_eq_false_iff_not, offset_past set.has, ahead_past]
      exact Nat.ne_of_lt (Nat.lt_add_of_pos_right hwidth)
    rw [if_neg hend, if_neg hend]
    simp only [hhit, Bool.and_false, Bool.false_and, Bool.false_eq_true, if_false]

theorem gapsFrom_hitsFrom (m : Nat) (fresh : Bool) {s : Place} (h : s.ahead.length < m) :
    (Tokenizer.gapsFrom s ((run set).hitsFrom m fresh s)).map (·.1) =
      (pieces set.has s.ahead).map String.ofList := by
  induction m generalizing fresh s with
  | zero => omega
  | succ m ih =>
      have hsplit := List.takeWhile_append_dropWhile (p := fun c => !set.has c) (l := s.ahead)
      rw [hitsFrom_run, pieces_eq_of_run]
      dsimp only
      rw [ahead_past]
      by_cases hend : s.ahead.dropWhile (fun c => !set.has c) = []
      · rw [hend, List.append_nil] at hsplit
        rw [if_pos hend, Tokenizer.gapsFrom, hsplit, hend, List.dropWhile_nil, pieces_nil]
        by_cases hs : s.ahead = [] <;> simp [hs]
      · have hshort := length_dropWhile_lt (takeWhile_start_ne_nil set hend)
        have hsub : (s.ahead.dropWhile fun c => !set.has c).Sublist s.ahead :=
          List.dropWhile_sublist _
        have hle := hsub.length_le
        have hrest := ih false (s := past set.has (past (fun c => !set.has c) s))
          (by rw [ahead_past, ahead_past]; omega)
        have hgap := between_past (fun c => !set.has c) s
        rw [ahead_past, ahead_past] at hrest
        rw [if_neg hend, Tokenizer.gapsFrom, offset_past]
        dsimp only
        by_cases hbefore : s.ahead.takeWhile (fun c => !set.has c) = []
        · rw [if_neg (by simp [hbefore, width]), hrest, hbefore]
          rfl
        · have hwidth := width_pos hbefore
          rw [if_pos (by omega), List.map_cons, hrest, hgap,
            List.filter_cons_of_pos (by simpa using hbefore), List.filter_nil,
            List.singleton_append, List.map_cons]

end

def isDelimiter (c : Char) : Bool := Tokenizer.delimiterSet.has c

def marks : List Char := [',', '.', ';', ':', '!', '?', '[', ']', '(', ')', '\'', '"']

theorem has_range_self (m c : Char) : (CharItem.range m m).has c = decide (c = m) := by
  rw [CharItem.has, ← Bool.decide_and]
  exact decide_eq_decide.mpr ⟨fun h => Char.le_antisymm h.2 h.1, fun h => by simp [h]⟩

theorem has_space (c : Char) : (CharItem.space true).has c = isWhiteSpace c := by
  rw [CharItem.has, beq_true]

theorem isDelimiter_iff (c : Char) : isDelimiter c = true ↔ isWhiteSpace c = true ∨ c ∈ marks := by
  simp [isDelimiter, CharSet.has, Tokenizer.delimiterSet, has_range_self, has_space, marks]

theorem isDelimiter_of_isWhiteSpace (c : Char) (h : isWhiteSpace c = true) :
    isDelimiter c = true :=
  (isDelimiter_iff c).mpr (.inl h)

theorem isDelimiter_blank : isDelimiter ' ' = true := isDelimiter_of_isWhiteSpace ' ' (by decide)

/-- The tokens of a text are the stretches between its delimiters. -/
theorem texts_tokenize (text : String) : (Tokenizer.standard.tokenize text).map (·.text) =
    (pieces isDelimiter text.toList).map String.ofList := by
  have hgaps := gapsFrom_hitsFrom Tokenizer.delimiterSet (text.toList.length + 1) true
    (s := .begin text) (Nat.lt_succ_self _)
  have hstandard : Tokenizer.standard.gaps = true := rfl
  rw [Tokenizer.tokenize, hstandard, if_pos rfl, List.map_map]
  calc (List.map _ (Tokenizer.gapsFrom (.begin text)
        (Tokenizer.standard.find text)).zipIdx)
      = ((Tokenizer.gapsFrom (.begin text) (Tokenizer.standard.find text)).zipIdx.map
          Prod.fst).map (·.1) := by rw [List.map_map]; rfl
    _ = _ := by
        rw [List.zipIdx_map_fst]
        exact hgaps

theorem stopped_tokenize {t : Token} {tz : Tokenizer} {text : String} (h : t ∈ tz.tokenize text) :
    t.stopped = false := by
  obtain ⟨x, -, rfl⟩ := List.mem_map.mp h
  rfl

/-- The form in which a stretch between delimiters is counted and looked up. -/
def fold (s : String) : String := if s.toList.any isUppercase then lowercase s else s

theorem stripChars_of_forall {q : Char → Bool} {s : List Char} (h : ∀ c ∈ s, q c = false) :
    stripChars q s = s := by
  have hdrop : ∀ s : List Char, (∀ c ∈ s, q c = false) → s.dropWhile q = s := by
    intro s hs
    cases s with
    | nil => rfl
    | cons c s => rw [List.dropWhile_cons_of_neg (by simp [hs c (by simp)])]
  rw [stripChars, hdrop s h, hdrop _ (by simpa using h), List.reverse_reverse]

theorem trim_of_mem_pieces {f s : List Char} (h : f ∈ pieces isDelimiter s) :
    trim (String.ofList f) = String.ofList f := by
  obtain ⟨-, hall⟩ := mem_pieces h
  rw [trim, strip, String.toList_ofList, stripChars_of_forall]
  intro c hc
  by_contra hspace
  have hdelimiter := isDelimiter_of_isWhiteSpace c (by simpa using hspace)
  rw [(hall c hc).2] at hdelimiter
  cases hdelimiter

theorem lowercaseToken_stripToken {t : Token} {f s : List Char} (hf : f ∈ pieces isDelimiter s)
    (htext : t.text = String.ofList f) (hstopped : t.stopped = false) :
    (Filter.lowercaseToken (Filter.stripToken t)).stopped = false ∧
      (Filter.lowercaseToken (Filter.stripToken t)).text = fold t.text := by
  obtain ⟨text, position, start, stop, stopped⟩ := t
  obtain rfl : text = String.ofList f := htext
  obtain rfl : stopped = false := hstopped
  have hne : String.ofList f ≠ "" := by simpa using (mem_pieces hf).1
  have hstrip : Filter.stripToken ⟨String.ofList f, position, start, stop, false⟩ =
      ⟨String.ofList f, position, start, stop, false⟩ := by
    simp [Filter.stripToken, trim_of_mem_pieces hf, hne]
  rw [hstrip, Filter.lowercaseToken, fold]
  dsimp only
  cases (String.ofList f).toList.any isUppercase with
  | false => exact ⟨rfl, rfl⟩
  | true => exact ⟨rfl, rfl⟩

theorem analyze_eq (a : Analyzer) (text : String) : a.analyze text =
    ((Tokenizer.standard.tokenize text).map fun t =>
      Filter.lowercaseToken (Filter.stripToken t)).filter (·.text ∉ a.stopWords) := by
  have hfold : ∀ ts : List Token, Filter.lowercase.apply (Filter.strip.apply ts) =
      ts.map fun t => Filter.lowercaseToken (Filter.stripToken t) := by
    intro ts
    rw [Filter.apply, Filter.apply, List.map_map]
    rfl
  rw [Analyzer.analyze, Analyzer.filters]
  cases hwords : a.stopWords with
  | nil => simp [hfold]
  | cons w ws =>
      have happly : ∀ ts : List Token, (Filter.stop (w :: ws)).apply ts =
          ts.filter fun t => decide (t.text ∉ w :: ws) := by
        intro ts
        rw [Filter.apply_stop]
        simp only [List.contains_eq_mem, decide_not]
      simp [hfold, happly]

/-- The words of a text are the folded stretches between its delimiters that are not stopped. -/
theorem words_eq (a : Analyzer) (text : String) : a.words text =
    ((pieces isDelimiter text.toList).map fun f => fold (String.ofList f)).filter
      (· ∉ a.stopWords) := by
  have htoken : ∀ t ∈ Tokenizer.standard.tokenize text,
      (Filter.lowercaseToken (Filter.stripToken t)).stopped = false ∧
        (Filter.lowercaseToken (Filter.stripToken t)).text = fold t.text := by
    intro t ht
    have hmem : t.text ∈ (Tokenizer.standard.tokenize text).map (·.text) := List.mem_map_of_mem ht
    rw [texts_tokenize] at hmem
    obtain ⟨f, hf, htext⟩ := List.mem_map.mp hmem
    exact lowercaseToken_stripToken hf htext.symm (stopped_tokenize ht)
  have hstopped : (a.analyze text).filter (!·.stopped) = a.analyze text := by
    rw [List.filter_eq_self, analyze_eq]
    intro t ht
    obtain ⟨u, hu, rfl⟩ := List.mem_map.mp (List.mem_filter.mp ht).1
    rw [(htoken u hu).1]
    rfl
  have hfolded : ((Tokenizer.standard.tokenize text).map fun t =>
      Filter.lowercaseToken (Filter.stripToken t)).map (·.text) =
        (pieces isDelimiter text.toList).map fun f => fold (String.ofList f) := by
    rw [List.map_map]
    calc (Tokenizer.standard.tokenize text).map _
        = (Tokenizer.standard.tokenize text).map fun t => fold t.text :=
          List.map_congr_left fun t ht => (htoken t ht).2
      _ = ((Tokenizer.standard.tokenize text).map (·.text)).map fold := by rw [List.map_map]; rfl
      _ = _ := by rw [texts_tokenize, List.map_map]; rfl
  have hcommute : ∀ ts : List Token, (ts.filter (·.text ∉ a.stopWords)).map (·.text) =
      (ts.map (·.text)).filter (· ∉ a.stopWords) := by
    intro ts
    rw [List.filter_map]
    rfl
  rw [Analyzer.words, hstopped, analyze_eq, hcommute, hfolded]

theorem words_congr {s t : String}
    (h : pieces isDelimiter s.toList = pieces isDelimiter t.toList) (a : Analyzer) :
    a.words s = a.words t := by
  rw [words_eq, words_eq, h]

theorem words_append_gap (a : Analyzer) {s : String} (hne : s ≠ "")
    (hs : ∀ c ∈ s.toList, isDelimiter c = true) (x y : String) :
    a.words (x ++ s ++ y) = a.words x ++ a.words y := by
  have hgap : s.toList ≠ [] := by simpa using hne
  rw [words_eq, String.toList_append, String.toList_append, pieces_append_gap hs hgap,
    List.map_append, List.filter_append, ← words_eq, ← words_eq]

theorem words_joinWith (a : Analyzer) {sep : Char} (hsep : isDelimiter sep = true)
    (parts : List String) : a.words (joinWith sep parts) = parts.flatMap a.words := by
  rw [words_eq, joinWith, String.toList_ofList, pieces_intercalate hsep, List.flatMap_map,
    List.map_flatMap, List.filter_flatMap]
  congr 1
  funext s
  rw [words_eq]

end Concordance.Proofs.Words
