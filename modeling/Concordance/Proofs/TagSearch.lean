import Concordance.Proofs.RouteSearch

namespace Concordance.Proofs.TagSearch

open Analysis (Analyzer AnalyzerConfig)
open Text Pieces Words Index Catalog UpdateFiles Persistence FieldSearch RouteSearch
open Deliveries Completion Delimiters

def unsigned (part : String) : String := String.ofList (part.toList.dropWhile (· = '#'))

/-- What is searched for a tag. -/
def bared (tag : String) : String :=
  joinWith ' ' (((wordsOf tag).map unsigned).filter (· ≠ ""))

theorem unsigned_of_head {part : String} (h : part.toList.head? ≠ some '#') :
    unsigned part = part := by
  rw [unsigned]
  cases hs : part.toList with
  | nil => rw [List.dropWhile_nil, ← hs, String.ofList_toList]
  | cons c s =>
      have hc : c ≠ '#' := by
        rintro rfl
        rw [hs] at h
        exact h rfl
      rw [List.dropWhile_cons_of_neg (by simpa using hc), ← hs, String.ofList_toList]

theorem wordsOf_eq (s : String) :
    wordsOf s = (pieces isWhiteSpace s.toList).map String.ofList := by
  have hempty : ∀ f : List Char, decide (String.ofList f ≠ "") = decide (f ≠ []) := by
    intro f
    simp
  rw [wordsOf, fields, List.filter_map, pieces]
  congr 2
  funext f
  exact hempty f

theorem filter_map_filter {g : String → String} (hg : g "" = "") (parts : List String) :
    ((parts.filter (· ≠ "")).map g).filter (· ≠ "") = (parts.map g).filter (· ≠ "") := by
  induction parts with
  | nil => rfl
  | cons s parts ih =>
      by_cases hs : s = ""
      · rw [List.filter_cons_of_neg (by simpa using hs), ih, List.map_cons,
          List.filter_cons_of_neg (by simp [hs, hg])]
      · rw [List.filter_cons_of_pos (by simpa using hs), List.map_cons, List.map_cons,
          List.filter_cons, List.filter_cons, ih]

theorem bared_sigil (tag : String) : bared (trim ("#" ++ tag)) = bared tag := by
  have htrim : wordsOf (trim ("#" ++ tag)) = wordsOf ("#" ++ tag) := by
    rw [wordsOf_eq, wordsOf_eq, pieces_trim fun _ h => h]
  have hsign : ("#" ++ tag).toList = '#' :: tag.toList := String.toList_append
  obtain ⟨f, fs, hfs⟩ := List.exists_cons_of_ne_nil (fieldsOf_ne_nil isWhiteSpace tag.toList)
  have hcut : fieldsOf isWhiteSpace ('#' :: tag.toList) = ('#' :: f) :: fs := by
    rw [fieldsOf, if_neg (by decide), hfs]
  have hdrop : unsigned (String.ofList ('#' :: f)) = unsigned (String.ofList f) := by
    rw [unsigned, unsigned, String.toList_ofList, String.toList_ofList,
      List.dropWhile_cons_of_pos (by decide)]
  rw [bared, htrim, bared, wordsOf, wordsOf, filter_map_filter rfl, filter_map_filter rfl, fields,
    fields, hsign, hcut, hfs, List.map_cons, List.map_cons, List.map_cons, List.map_cons, hdrop]

theorem ofString_sigil (tag : String) : Query.ofString ("#" ++ tag) = ⟨.tags, bared tag⟩ := by
  obtain ⟨rest, hrest⟩ : ∃ rest, (trim ("#" ++ tag)).toList = '#' :: rest := by
    rw [trim, strip, String.toList_ofList, String.toList_append]
    exact stripChars_cons (by decide) _
  rw [← bared_sigil, Query.ofString]
  simp only [hrest]
  rfl

theorem words_eq_flatMap (a : Analyzer) (text : String) :
    a.words text = (wordsOf text).flatMap a.words := by
  have hboth : (fun c => isDelimiter c || isWhiteSpace c) = isDelimiter := by
    funext c
    cases hc : isWhiteSpace c with
    | false => exact Bool.or_false _
    | true => rw [isDelimiter_of_isWhiteSpace c hc, Bool.true_or]
  rw [← words_joinWith a isDelimiter_blank]
  apply words_congr
  rw [joinWith, String.toList_ofList, pieces_intercalate isDelimiter_blank, List.flatMap_map,
    wordsOf, flatMap_filter_ne_empty rfl, fields, List.flatMap_map]
  simp only [String.toList_ofList]
  rw [flatMap_fieldsOf, hboth]

theorem words_bared (a : Analyzer) (tag : String) :
    a.words (bared tag) = (wordsOf tag).flatMap fun part => a.words (unsigned part) := by
  have hempty : a.words "" = [] := by
    rw [words_eq]
    rfl
  rw [bared, words_joinWith a isDelimiter_blank, flatMap_filter_ne_empty hempty, List.flatMap_map]

theorem words_tagsText (a : Analyzer) (d : Document) :
    a.words (Field.tags.project d) = d.tags.flatMap a.words :=
  words_joinWith a isDelimiter_blank d.tags

/-- After an update that succeeds, whatever is asked in between, a number sign with a tag of one of
its documents behind it searches the tags, for what is left of the tag without the number signs in
front of its parts. The document is found, with room for all documents, exactly if one of the words
that are left is a word of its tags or of what a search shows of it; so it is found unless all parts
of the tag that have words have a number sign in front. -/
theorem search_tag (cat : Catalog) (ds : List Document) (s : Storage)
    {summary : UpdateSummary} {cat₁ : Catalog} {t : Storage}
    (hupdate : Serving.update ds (cat, s) = .ok summary (cat₁, t))
    (asked : List (Field × String × Nat)) {limit : Nat} (hlimit : ds.length ≤ limit)
    {d : Document} (hd : d ∈ ds) {tag : String} (htag : tag ∈ d.tags) :
    Query.ofString ("#" ++ tag) = ⟨.tags, bared tag⟩ ∧
      ∃ hits y, Serving.search ("#" ++ tag) limit (searched (cat₁, t) asked) = .ok hits y ∧
        ((∃ hit ∈ hits, hit.id = Bytes.ofString d.id) ↔
          ∃ w ∈ (Analyzer.ofConfig cat.config).words (bared tag),
            w ∈ d.tags.flatMap (Analyzer.ofConfig cat.config).words ++
              (Analyzer.ofConfig cat.config).words d.stored) ∧
        ((∃ hit ∈ hits, hit.id = Bytes.ofString d.id) ∨
          ∀ part ∈ wordsOf tag, (Analyzer.ofConfig cat.config).words part ≠ [] →
            part.toList.head? = some '#') := by
  have hholds := holds_searched (update_holds hupdate).2.1 asked
  have hquery := ofString_sigil tag
  obtain ⟨hits, y, hsearch, hfound⟩ := searchField_finds_iff hholds hlimit .tags (bared tag)
  have hfound := hfound d hd
  rw [words_tagsText] at hfound
  refine ⟨hquery, hits, y, by rw [Serving.search, hquery]; exact hsearch, hfound, ?_⟩
  rw [hfound, or_iff_not_imp_right]
  intro hpart
  push Not at hpart
  obtain ⟨part, hpart, hne, hhead⟩ := hpart
  obtain ⟨w, hw⟩ := List.exists_mem_of_ne_nil _ hne
  have hleft : w ∈ (Analyzer.ofConfig cat.config).words (bared tag) := by
    rw [words_bared, List.mem_flatMap]
    exact ⟨part, hpart, by rwa [unsigned_of_head hhead]⟩
  have hword : w ∈ (Analyzer.ofConfig cat.config).words tag := by
    rw [words_eq_flatMap, List.mem_flatMap]
    exact ⟨part, hpart, hw⟩
  exact ⟨w, hleft, List.mem_append_left _ (List.mem_flatMap.mpr ⟨tag, htag, hword⟩)⟩

def tagged (tag : String) : List Document := [{ route := "/", title := "!", tags := [tag] }]

theorem update_tagged {tag : String} (h : ∀ f, Addressable {} (tagged tag) f) :
    ∃ summary cat t,
      Serving.update (tagged tag) (Catalog.ofConfig {}, littered) = .ok summary (cat, t) := by
  have hids : ((tagged tag).map Document.id).Nodup := List.nodup_singleton _
  have hdelivers : Delivers Set.univ (updating {} (tagged tag)) littered fun _ _ => True :=
    updating_delivers (fun f => (indexFile_iff hids).mpr (h f)) fun f =>
      leftovers_lt_iff.mp (leftovers_littered f)
  obtain ⟨summary, ⟨cat, t⟩, hupdate⟩ := (update_ok_iff (Catalog.ofConfig {}) (tagged tag) littered
    hids (hdelivers (.inl faultless_littered)).1 leftovers_littered).mpr h
  exact ⟨summary, cat, t, hupdate⟩

theorem search_tag_ending : ∃ summary cat t hits y,
    Serving.update (tagged "C#") (Catalog.ofConfig {}, littered) = .ok summary (cat, t) ∧
      Serving.search "#C#" 1 (cat, t) = .ok hits y ∧
        ∃ hit ∈ hits, hit.id = Bytes.ofString "/" := by
  have haddressable : ∀ f, Addressable {} (tagged "C#") f := by
    intro f
    cases f <;> decide +kernel
  obtain ⟨summary, cat, t, hupdate⟩ := update_tagged haddressable
  obtain ⟨-, hits, y, hsearch, -, hfound⟩ :=
    search_tag (Catalog.ofConfig {}) (tagged "C#") littered hupdate [] (Nat.le_refl 1)
      (List.mem_singleton_self _) (List.mem_singleton_self _)
  refine ⟨summary, cat, t, hits, y, hupdate, hsearch, ?_⟩
  rcases hfound with hfound | hnone
  · exact hfound
  · have hpart := hnone "C#" (by decide +kernel) (by decide +kernel)
    simp at hpart

/-- A tag that begins with a number sign has a word, and yet it is not found. -/
theorem search_tag_signed : ∃ summary cat t hits y,
    Serving.update (tagged "#b") (Catalog.ofConfig {}, littered) = .ok summary (cat, t) ∧
      (Analyzer.ofConfig {}).words "#b" ≠ [] ∧
        Serving.search "##b" 1 (cat, t) = .ok hits y ∧
          ¬∃ hit ∈ hits, hit.id = Bytes.ofString "/" := by
  have haddressable : ∀ f, Addressable {} (tagged "#b") f := by
    intro f
    cases f <;> decide +kernel
  obtain ⟨summary, cat, t, hupdate⟩ := update_tagged haddressable
  obtain ⟨hits, y, hsearch, hfound⟩ := searchField_finds_iff (update_holds hupdate).2.1
    (Nat.le_refl 1) .tags (bared "#b")
  have hquery : Query.ofString "##b" = ⟨.tags, bared "#b"⟩ := ofString_sigil "#b"
  have hnone : ¬∃ w ∈ (Analyzer.ofConfig {}).words (bared "#b"),
      w ∈ (Analyzer.ofConfig {}).words "#b" ++ (Analyzer.ofConfig {}).words "!" := by
    decide +kernel
  refine ⟨summary, cat, t, hits, y, hupdate, by decide +kernel, ?_, ?_⟩
  · rw [Serving.search, hquery]
    exact hsearch
  · exact fun hhit => hnone ((hfound _ (List.mem_singleton_self _)).mp hhit)

end Concordance.Proofs.TagSearch
