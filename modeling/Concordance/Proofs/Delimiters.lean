import Concordance.Document
import Concordance.Proofs.Words

namespace Concordance.Proofs.Delimiters

open Analysis (Analyzer AnalyzerConfig)
open Text Pieces Words
open Document (routeWords)

def isSlash (c : Char) : Bool := c = '/'

def routePieces (route : String) : List (List Char) :=
  pieces (fun c => isDelimiter c || isSlash c) route.toList

theorem flatMap_filter_ne_empty {α : Type} {g : String → List α} (hg : g "" = [])
    (parts : List String) : (parts.filter (· ≠ "")).flatMap g = parts.flatMap g := by
  induction parts with
  | nil => rfl
  | cons s parts ih =>
      by_cases hs : s = ""
      · rw [List.filter_cons_of_neg (by simpa using hs), ih, List.flatMap_cons, hs, hg,
          List.nil_append]
      · rw [List.filter_cons_of_pos (by simpa using hs), List.flatMap_cons, ih, List.flatMap_cons]

theorem pieces_routeWords (route : String) :
    pieces isDelimiter (routeWords route).toList = routePieces route := by
  have hcut : pieces isDelimiter (routeWords route).toList =
      (((fields isSlash route).map trim).filter (· ≠ "")).flatMap
        fun s => pieces isDelimiter s.toList := by
    rw [routeWords, joinWith, String.toList_ofList,
      pieces_intercalate isDelimiter_blank, List.flatMap_map]
    rfl
  have htrim : ∀ s, pieces isDelimiter (trim s).toList = pieces isDelimiter s.toList :=
    pieces_trim isDelimiter_of_isWhiteSpace
  rw [hcut, flatMap_filter_ne_empty rfl, List.flatMap_map]
  simp only [htrim]
  rw [fields, List.flatMap_map]
  simp only [String.toList_ofList]
  exact flatMap_fieldsOf isDelimiter isSlash route.toList

theorem pieces_replaceChar_slash (s : String) :
    pieces isDelimiter (replaceChar '/' ' ' s).toList =
      pieces (fun c => isDelimiter c || isSlash c) s.toList := by
  rw [replaceChar, String.toList_ofList]
  apply pieces_map
  · intro c hc
    rw [if_neg (by simpa [isSlash] using hc)]
  · intro c hc
    rw [if_pos (by simpa [isSlash] using hc)]
    exact isDelimiter_blank

variable (a : Analyzer)

theorem isDelimiter_lineEnd : isDelimiter '\n' = true :=
  isDelimiter_of_isWhiteSpace '\n' (by decide)

theorem words_routeWords (route : String) :
    a.words (routeWords route) = a.words (replaceChar '/' ' ' route) := by
  apply words_congr
  rw [pieces_routeWords, pieces_replaceChar_slash, routePieces]

theorem words_contentText (d : Document) : a.words d.contentText =
    a.words d.title ++ a.words d.description ++ a.words (routeWords d.route) ++
      a.words d.body := by
  rw [Document.contentText, words_joinWith a isDelimiter_lineEnd]
  simp [List.flatMap_cons]

/-- Analysis distributes over stretches of delimiters, and so over the texts that are indexed for a
document. -/
theorem words_delimited (c : AnalyzerConfig) :
    (∀ x s y : String, s ≠ "" → (∀ d ∈ s.toList, isWhiteSpace d = true ∨ d ∈ marks) →
      (Analyzer.ofConfig c).words (x ++ s ++ y) =
        (Analyzer.ofConfig c).words x ++ (Analyzer.ofConfig c).words y) ∧
    (∀ d : Document, (Analyzer.ofConfig c).words d.contentText =
        (Analyzer.ofConfig c).words d.title ++ (Analyzer.ofConfig c).words d.description ++
          (Analyzer.ofConfig c).words (routeWords d.route) ++ (Analyzer.ofConfig c).words d.body ∧
      (Analyzer.ofConfig c).words d.tagsText = d.tags.flatMap (Analyzer.ofConfig c).words) ∧
    ∀ route, (Analyzer.ofConfig c).words (routeWords route) =
      (Analyzer.ofConfig c).words (replaceChar '/' ' ' route) := by
  refine ⟨fun x s y hne hs => ?_, fun d => ⟨?_, ?_⟩, words_routeWords _⟩
  · exact words_append_gap _ hne (fun d hd => (isDelimiter_iff d).mpr (hs d hd)) x y
  · exact words_contentText _ d
  · exact words_joinWith _ isDelimiter_blank d.tags

theorem words_delimited_sigma :
    (Analyzer.ofConfig ⟨false, ["The"]⟩).words ("(THE ΟΔΟΣ" ++ ".\u3000" ++ "FOX-ΣΑΣ!") =
      ["οδος", "fox-σας"] := by
  have hgap : ∀ d ∈ ".\u3000".toList, isWhiteSpace d = true ∨ d ∈ marks := by
    rw [show ".\u3000".toList = ['.', '\u3000'] from rfl, List.forall_mem_cons,
      List.forall_mem_singleton]
    exact ⟨.inr (by simp [marks]), .inl (by decide)⟩
  rw [(words_delimited ⟨false, ["The"]⟩).1 "(THE ΟΔΟΣ" ".\u3000" "FOX-ΣΑΣ!" (by decide) hgap]
  decide +kernel

end Concordance.Proofs.Delimiters
