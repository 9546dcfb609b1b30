import Concordance.Proofs.Delimiters
import Concordance.Proofs.FieldSearch

namespace Concordance.Proofs.RouteSearch

open Analysis (Analyzer AnalyzerConfig)
open Text Pieces Words Index Catalog WordCounts IndexImage IndexRoundTrip UpdateFiles Persistence
open Ranking FieldSearch Deliveries Completion Delimiters
open Document (routeWords)

theorem stripChars_cons {q : Char → Bool} {c : Char} (hc : q c = false) (s : List Char) :
    ∃ t, stripChars q (c :: s) = c :: t := by
  obtain ⟨before, behind, hs, hbefore, hbehind⟩ := stripChars_split q (c :: s)
  cases before with
  | cons d before =>
      obtain ⟨rfl, -⟩ := List.cons.inj hs
      rw [hbefore c (by simp)] at hc
      cases hc
  | nil =>
      cases hstrip : stripChars q (c :: s) with
      | nil =>
          rw [hstrip] at hs
          have hmem : c ∈ behind := by
            rw [List.nil_append, List.nil_append] at hs
            simp [← hs]
          rw [hbehind c hmem] at hc
          cases hc
      | cons d t =>
          rw [hstrip, List.nil_append, List.cons_append] at hs
          obtain ⟨rfl, -⟩ := List.cons.inj hs
          exact ⟨t, rfl⟩

theorem toList_id (d : Document) :
    d.id.toList = '/' :: stripChars isSlash (trim d.route).toList := by
  have hclass : (fun c : Char => decide (c = '/')) = isSlash := rfl
  rw [Document.id, String.toList_append, strip, String.toList_ofList, hclass,
    List.singleton_append, String.toList_ofList]

theorem isDelimiter_or_of_isWhiteSpace (c : Char) (hc : isWhiteSpace c = true) :
    (isDelimiter c || isSlash c) = true := by
  rw [isDelimiter_of_isWhiteSpace c hc, Bool.true_or]

theorem isDelimiter_or_of_isSlash (c : Char) (hc : isSlash c = true) :
    (isDelimiter c || isSlash c) = true := by
  rw [hc, Bool.or_true]

theorem pieces_id (d : Document) :
    pieces (fun c => isDelimiter c || isSlash c) d.id.toList = routePieces d.route := by
  rw [toList_id, pieces_cons (isDelimiter_or_of_isSlash '/' rfl),
    pieces_stripChars isDelimiter_or_of_isSlash]
  exact pieces_trim isDelimiter_or_of_isWhiteSpace _

theorem ofString_of_slash {s : String} {rest : List Char} (h : (trim s).toList = '/' :: rest) :
    Query.ofString s = ⟨.routes, trim (replaceChar '/' ' ' (trim s))⟩ := by
  rw [Query.ofString]
  simp only [h]

theorem ofString_id (d : Document) : (Query.ofString d.id).field = .routes ∧
    pieces isDelimiter (Query.ofString d.id).text.toList = routePieces d.route := by
  obtain ⟨rest, hrest⟩ : ∃ rest, (trim d.id).toList = '/' :: rest := by
    rw [trim, strip, String.toList_ofList, toList_id]
    exact stripChars_cons (by decide) _
  rw [ofString_of_slash hrest]
  refine ⟨rfl, ?_⟩
  calc pieces isDelimiter (trim (replaceChar '/' ' ' (trim d.id))).toList
      = pieces isDelimiter (replaceChar '/' ' ' (trim d.id)).toList :=
        pieces_trim isDelimiter_of_isWhiteSpace _
    _ = pieces (fun c => isDelimiter c || isSlash c) (trim d.id).toList :=
        pieces_replaceChar_slash _
    _ = pieces (fun c => isDelimiter c || isSlash c) d.id.toList :=
        pieces_trim isDelimiter_or_of_isWhiteSpace _
    _ = routePieces d.route := pieces_id d

theorem words_query (a : Analyzer) (d : Document) :
    a.words (Query.ofString d.id).text = a.words (routeWords d.route) := by
  apply words_congr
  rw [(ofString_id d).2, pieces_routeWords]

/-- An id is hardly shorter than its route has words, so that a file with the ids bounds these. -/
theorem length_words_le_id (a : Analyzer) (d : Document) :
    (a.words d.routesText).length ≤ (Bytes.ofString d.id).length + 1 := by
  have hpieces := length_pieces_le (fun c => isDelimiter c || isSlash c) d.id.toList
  have hfilter := List.length_filter_le (fun w : String => decide (w ∉ a.stopWords))
    ((pieces isDelimiter d.routesText.toList).map fun f => fold (String.ofList f))
  have hchars := length_le_ofString d.id
  rw [pieces_id, String.length_toList] at hpieces
  rw [← words_eq, List.length_map, Document.routesText, pieces_routeWords] at hfilter
  rw [Document.routesText]
  omega

theorem countable_routes {c : AnalyzerConfig} {ds : List Document} {x : Catalog × Storage}
    (h : Holds c ds x) : Countable (Analyzer.ofConfig c) (sources .routes ds) := by
  obtain ⟨b, hbuilt⟩ := built_of_holds h .routes
  obtain ⟨summary, hfinish⟩ := hbuilt.finished
  have hsmall := (small_of_finish b hfinish).1
  intro e he
  obtain ⟨d, -, rfl⟩ := List.mem_map.mp he
  have hrecord := (length_record_le (record_mem (taken_of_built hbuilt) he)).trans
    (dataSize_le_size _)
  simp only [Source.id, Source.stored] at hrecord
  have hindexed := length_words_le_id (Analyzer.ofConfig c) d
  have hstored := length_words_le (Analyzer.ofConfig c) d.stored
  have hchars := length_le_ofString d.stored
  have hmax : UInt32.size + 3 ≤ UInt64.size := by decide
  rw [List.length_append]
  simp only [Source.indexed, Source.stored, Field.project]
  omega

/-- After an update that succeeds, whatever is asked in between, a search for the id of one of its
documents, of which the route has a word, searches the routes and has a hit for the document, with
at least one point for each word of the route, if only there is room for all documents. -/
theorem search_own_route (cat : Catalog) (ds : List Document) (s : Storage)
    {summary : UpdateSummary} {cat₁ : Catalog} {t : Storage}
    (hupdate : Serving.update ds (cat, s) = .ok summary (cat₁, t))
    (asked : List (Field × String × Nat)) {limit : Nat} (hlimit : ds.length ≤ limit)
    {d : Document} (hd : d ∈ ds)
    (hne : (Analyzer.ofConfig cat.config).words (routeWords d.route) ≠ []) :
    (Query.ofString d.id).field = .routes ∧
      ∃ hits y, Serving.search d.id limit (searched (cat₁, t) asked) = .ok hits y ∧
        ∃ hit ∈ hits, hit.id = Bytes.ofString d.id ∧ hit.stored = Bytes.ofString d.stored ∧
          ((Analyzer.ofConfig cat.config).words (routeWords d.route)).eraseDups.length ≤
            hit.score.toNat := by
  have hholds := holds_searched (update_holds hupdate).2.1 asked
  have hfield := (ofString_id d).1
  refine ⟨hfield, ?_⟩
  rw [Serving.search, hfield]
  rw [← words_query] at hne ⊢
  have hwords : ∀ w ∈ (Analyzer.ofConfig cat.config).words (Query.ofString d.id).text,
      w ∈ (Analyzer.ofConfig cat.config).words (Field.routes.project d) := by
    intro w hw
    rwa [words_query] at hw
  exact searchField_finds hholds (countable_routes hholds) hd hlimit hne hwords

def slashed : Document := { route := " //?// Été# / ", title := "?" }

def similar : List Document := [slashed, { route := "été#", title := "!" }]

theorem addressable_similar (f : Field) : Addressable {} similar f := by
  cases f <;> decide +kernel

theorem search_own_route_slashed : ∃ summary cat₁ t hits y,
    Serving.update similar (Catalog.ofConfig {}, littered) = .ok summary (cat₁, t) ∧
      Serving.search "/?// Été# " 2 (cat₁, t) = .ok hits y ∧
        ∃ hit ∈ hits, hit.id = Bytes.ofString "/?// Été# " ∧ 1 ≤ hit.score.toNat := by
  have hids : (similar.map Document.id).Nodup := by decide +kernel
  have hdelivers : Delivers Set.univ (updating {} similar) littered fun _ _ => True :=
    updating_delivers (fun f => (indexFile_iff hids).mpr (addressable_similar f)) fun f =>
      leftovers_lt_iff.mp (leftovers_littered f)
  obtain ⟨summary, ⟨cat₁, t⟩, hupdate⟩ := (update_ok_iff (Catalog.ofConfig {}) similar littered hids
    (hdelivers (.inl faultless_littered)).1 leftovers_littered).mpr addressable_similar
  have hwords : (Analyzer.ofConfig (Catalog.ofConfig {}).config).words
      (routeWords slashed.route) = ["été#"] := by decide +kernel
  have hid : slashed.id = "/?// Été# " := by decide +kernel
  obtain ⟨-, hits, y, hsearch, hit, hhit, hfound, -, hscore⟩ :=
    search_own_route (Catalog.ofConfig {}) similar littered hupdate [] (Nat.le_refl 2)
      (List.mem_cons_self (a := slashed)) (by simp [hwords])
  rw [hid] at hsearch hfound
  rw [hwords] at hscore
  exact ⟨summary, cat₁, t, hits, y, hupdate, hsearch, hit, hhit, hfound, hscore⟩

end Concordance.Proofs.RouteSearch
