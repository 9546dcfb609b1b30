import Concordance.Proofs.Words

namespace Concordance.Proofs.StoppedWords

open Analysis Text Pieces Words

variable {c : AnalyzerConfig} {w : String}

theorem lowercaseFrom_ne_nil (before : List Char) {s : List Char} (h : s ≠ []) :
    lowercaseFrom before s ≠ [] := by
  obtain ⟨d, s, rfl⟩ := List.exists_cons_of_ne_nil h
  rw [lowercaseFrom]
  apply List.append_ne_nil_of_left_ne_nil
  split
  · exact List.cons_ne_nil _ _
  · rw [lowercaseChar]
    split <;> exact List.cons_ne_nil _ _

theorem lowercase_ne_empty {s : String} (h : s ≠ "") : lowercase s ≠ "" := by
  have hs : s.toList ≠ [] := by simpa using h
  simpa [lowercase] using lowercaseFrom_ne_nil [] hs

theorem fold_ne_empty {s : String} (h : s ≠ "") : fold s ≠ "" := by
  rw [fold]
  split
  · exact lowercase_ne_empty h
  · exact h

theorem fold_eq_lowercase_iff (s : String) :
    fold s = lowercase s ↔ s.toList.any isUppercase = true ∨ lowercase s = s := by
  rw [fold]
  split
  · rename_i hupper
    exact ⟨fun _ => .inl hupper, fun _ => rfl⟩
  · rename_i hupper
    exact ⟨fun h => .inr h.symm, fun h => (h.resolve_left hupper).symm⟩

theorem normalize_mem (hw : w ∈ c.stopWords) (hne : StopWords.normalize w ≠ "") :
    StopWords.normalize w ∈ c.effectiveStopWords := by
  rw [AnalyzerConfig.effectiveStopWords, StopWords.effective, WordSet.mem_ofList]
  apply List.mem_append_left
  exact List.mem_filter.mpr ⟨List.mem_map_of_mem hw, by simpa using hne⟩

theorem words_eq_nil_iff (a : Analyzer) (text : String) : a.words text = [] ↔
    ∀ f ∈ pieces isDelimiter text.toList, fold (String.ofList f) ∈ a.stopWords := by
  rw [words_eq, List.filter_eq_nil_iff, List.forall_mem_map]
  simp

theorem normalize_not_mem_words (hw : w ∈ c.stopWords) (text : String) :
    StopWords.normalize w ∉ (Analyzer.ofConfig c).words text := by
  intro hmem
  rw [words_eq] at hmem
  obtain ⟨hstretch, hkept⟩ := List.mem_filter.mp hmem
  obtain ⟨f, hf, hfold⟩ := List.mem_map.mp hstretch
  have hne : StopWords.normalize w ≠ "" := by
    rw [← hfold]
    exact fold_ne_empty (by simpa using (mem_pieces hf).1)
  exact of_decide_eq_true hkept (normalize_mem hw hne)

theorem words_of_undivided (a : Analyzer) {text : String}
    (h : ∀ d ∈ (trim text).toList, isDelimiter d = false) : a.words text =
      if trim text = "" ∨ fold (trim text) ∈ a.stopWords then [] else [fold (trim text)] := by
  have hcut : pieces isDelimiter text.toList = [(trim text).toList].filter (· ≠ []) := by
    rw [← pieces_trim isDelimiter_of_isWhiteSpace, pieces_of_forall h]
  rw [words_eq, hcut]
  by_cases hempty : trim text = ""
  · simp [hempty]
  · rw [List.filter_cons_of_pos (by simpa using hempty), List.filter_nil, List.map_singleton,
      String.ofList_toList]
    by_cases hstopped : fold (trim text) ∈ a.stopWords
    · simp [hstopped]
    · simp [hempty, hstopped]

/-- A stop word of a configuration, in its normalized form, is no word of any text. As a text it has
no words exactly if each stretch between its delimiters is stopped, for itself. Where nothing but
white space is cut off its ends this is so, unless it has letters to put into small ones none of
which is a capital; then it may be a word. -/
theorem words_stopWord (c : AnalyzerConfig) {w : String} (hw : w ∈ c.stopWords) :
    (∀ text, StopWords.normalize w ∉ (Analyzer.ofConfig c).words text) ∧
      ((Analyzer.ofConfig c).words w = [] ↔
        ∀ f ∈ pieces isDelimiter w.toList, fold (String.ofList f) ∈ c.effectiveStopWords) ∧
      ((∀ d ∈ (trim w).toList, isDelimiter d = false) → (Analyzer.ofConfig c).words w = [] ∨
        (trim w).toList.any isUppercase = false ∧ lowercase (trim w) ≠ trim w ∧
          (Analyzer.ofConfig c).words w = [trim w]) := by
  refine ⟨normalize_not_mem_words hw, words_eq_nil_iff _ w, fun hwhole => ?_⟩
  rw [words_of_undivided (Analyzer.ofConfig c) hwhole]
  split
  · exact .inl rfl
  · rename_i hkept
    rw [not_or] at hkept
    have hfold : fold (trim w) ≠ lowercase (trim w) := by
      intro heq
      apply hkept.2
      rw [heq]
      exact normalize_mem hw (lowercase_ne_empty hkept.1)
    rw [Ne, fold_eq_lowercase_iff, not_or] at hfold
    obtain ⟨hupper, hlower⟩ := hfold
    have hsame : fold (trim w) = trim w := by rw [fold, if_neg hupper]
    rw [hsame]
    exact .inr ⟨by simpa using hupper, hlower, rfl⟩

theorem words_stopWord_capitals :
    (∀ text, "the" ∉ (Analyzer.ofConfig ⟨false, [" The ", "FOX"]⟩).words text) ∧
      (Analyzer.ofConfig ⟨false, [" The ", "FOX"]⟩).words " The " = [] := by
  obtain ⟨hnever, -, hwhole⟩ :=
    words_stopWord ⟨false, [" The ", "FOX"]⟩ (w := " The ") (by decide)
  have hletters : stripChars isWhiteSpace " The ".toList = ['T', 'h', 'e'] := by decide +kernel
  have hsmall : lowercaseFrom [] ['T', 'h', 'e'] = ['t', 'h', 'e'] := by decide +kernel
  have htrim : (trim " The ").toList = ['T', 'h', 'e'] := by
    rw [trim, strip, String.toList_ofList, hletters]
  have hnormal : StopWords.normalize " The " = "the" := by
    rw [StopWords.normalize, lowercase, htrim, hsmall]
  have hundivided : ∀ d ∈ ['T', 'h', 'e'], isDelimiter d = false := by
    rw [List.forall_mem_cons, List.forall_mem_cons, List.forall_mem_singleton]
    decide +kernel
  rw [htrim] at hwhole
  refine ⟨hnormal ▸ hnever, ?_⟩
  rcases hwhole hundivided with hnone | ⟨hupper, -⟩
  · exact hnone
  · revert hupper
    decide +kernel

/-- A stop word that is cut in two, and one of which the letter is neither a capital nor small: as
texts they have words. -/
theorem words_stopWord_divided :
    (Analyzer.ofConfig ⟨false, ["don't"]⟩).words "don't" = ["don", "t"] ∧
      (Analyzer.ofConfig ⟨false, ["ǅ"]⟩).words "ǅ" = ["ǅ"] := by
  decide +kernel

end Concordance.Proofs.StoppedWords
