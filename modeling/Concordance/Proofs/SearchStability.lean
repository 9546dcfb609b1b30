import Concordance.Proofs.Steadiness

namespace Concordance.Proofs.SearchStability

open Analysis (Analyzer AnalyzerConfig)
open BlockStore (Record View Viewing)
open Index Outcomes Cursors Guards Containment Corruption Lockstep Steadiness
open IndexReading (onDocuments_spec onWords_spec ofInput_stores)
open IndexRoundTrip (Call)
open StoreImage (image length_image)
open StoreReading (Shows)
open StoreSearch (values find_spec)

variable {p : Tape} {s t : Searcher} {α : Type}

structure Settled (p : Tape) (s t : Searcher) : Prop where
  analyzer : t.analyzer = s.analyzer
  documents : Kept p s.documents t.documents
  words : Kept p s.words t.words

theorem settled_self (h : Housed p s) : Settled p s s :=
  ⟨rfl, h.documents.keptSelf, h.words.keptSelf⟩

theorem onDocuments_steady {m : Viewing α} {x : Except Error α}
    (hm : Steady (Kept p s.documents) m x) : Steady (Settled p s) (Searcher.onDocuments m) x := by
  rw [GuardedSearchers.onDocuments_eq_focus]
  exact hm.focus (fun _ ht => ht.documents) fun _ _ ht hv => ⟨ht.analyzer, hv, ht.words⟩

theorem onWords_steady {m : Viewing α} {x : Except Error α} (hm : Steady (Kept p s.words) m x) :
    Steady (Settled p s) (Searcher.onWords m) x := by
  rw [GuardedSearchers.onWords_eq_focus]
  exact hm.focus (fun _ ht => ht.words) fun _ _ ht hv => ⟨ht.analyzer, ht.documents, hv⟩

def storedOf (s : Searcher) (id : Bytes) : Except Error (Option Bytes) :=
  outcomeOf (Searcher.document id s)

def listOf (s : Searcher) (w : String) : Except Error (List Posting) :=
  outcomeOf (Searcher.postings w s)

theorem document_steady (h : Housed p s) (id : Bytes) :
    Steady (Settled p s) (Searcher.document id) (storedOf s id) :=
  (onDocuments_steady (find_steady h.documents id)).outcome (settled_self h)

theorem postings_steady (h : Housed p s) (w : String) :
    Steady (Settled p s) (Searcher.postings w) (listOf s w) := by
  have hread : Steady (Settled p s) (Searcher.postings w)
      (outcomeOf (View.find (Bytes.ofString w) s.words) >>= fun found =>
        found.elim (.ok []) fun b => (Posting.decode b).mapError .format) := by
    apply (onWords_steady (find_steady h.words (Bytes.ofString w))).bind
    intro found
    cases found with
    | none => exact steady_pure []
    | some b =>
        rw [Option.elim_some]
        cases hdecode : Posting.decode b with
        | ok ps =>
            simp only [hdecode]
            exact steady_pure ps
        | error fault =>
            simp only [hdecode]
            exact steady_throw (.format fault)
  exact hread.outcome (settled_self h)

def scoresOf (s : Searcher) : Scores → List String → Except Error Scores
  | scores, [] => return scores
  | scores, w :: ws => do
      let ps ← listOf s w
      scoresOf s (ps.foldl (fun s p => s.add p) scores) ws

def hitsOf (s : Searcher) : List (Bytes × UInt64) → Except Error (List Hit)
  | [] => return []
  | (id, n) :: rest => do
      match ← storedOf s id with
      | none => throw (.corrupt (.documentMissing id))
      | some stored => return ⟨id, stored, n⟩ :: (← hitsOf s rest)

def found (s : Searcher) (words : List String) (limit : Nat) : Except Error (List Hit) := do
  if limit = 0 then return []
  hitsOf s ((← scoresOf s ∅ words).ranked.take limit)

theorem score_steady (h : Housed p s) (scores : Scores) (ws : List String) :
    Steady (Settled p s) (Searcher.score scores ws) (scoresOf s scores ws) := by
  induction ws generalizing scores with
  | nil => exact steady_pure scores
  | cons w ws ih => exact (postings_steady h w).bind fun ps => ih _

theorem resolve_steady (h : Housed p s) (ranked : List (Bytes × UInt64)) :
    Steady (Settled p s) (Searcher.resolve ranked) (hitsOf s ranked) := by
  induction ranked with
  | nil => exact steady_pure []
  | cons x ranked ih =>
      obtain ⟨id, n⟩ := x
      apply (document_steady h id).bind
      intro stored
      cases stored with
      | none => exact steady_throw _
      | some stored => exact ih.bind fun hits => steady_pure _

theorem search_steady (h : Housed p s) (query : String) (limit : Nat) :
    Steady (Settled p s) (Searcher.search query limit)
      (found s (s.analyzer.words query).eraseDups limit) := by
  rw [Searcher.search, found]
  split
  · exact steady_pure []
  · apply steady_get_bind
    intro t ht
    rw [ht.analyzer]
    exact (score_steady h ∅ _).bind fun scores => resolve_steady h _

theorem settled_after (h : Housed p s) (ht : Settled p s t) (call : Call) :
    Settled p s (call.after t) := by
  cases call with
  | document id => exact (document_steady h id t ht).2
  | postings word => exact (postings_steady h word t ht).2
  | search query limit => exact (search_steady h query limit t ht).2

theorem settled_afterAll (h : Housed p s) (ht : Settled p s t) (calls : List Call) :
    Settled p s (calls.foldl Call.after t) := by
  induction calls generalizing t with
  | nil => exact ht
  | cons call calls ih => exact ih (settled_after h ht call)

theorem saturatingAdd_right_comm (k m n : UInt64) :
    saturatingAdd (saturatingAdd k m) n = saturatingAdd (saturatingAdd k n) m := by
  have htoNat : ∀ m n : UInt64,
      (saturatingAdd m n).toNat = min (m.toNat + n.toNat) (UInt64.size - 1) := by
    intro m n
    exact UInt64.toNat_ofNat_of_lt' (Nat.lt_of_le_of_lt (Nat.min_le_right _ _) (by decide))
  apply UInt64.toNat_inj.mp
  simp only [htoNat]
  omega

theorem add_right_comm (q q' : Posting) (scores : Scores) :
    (scores.add q).add q' = (scores.add q').add q := by
  apply Std.ExtTreeMap.ext_getElem?
  intro id
  simp only [Scores.getElem?_add]
  by_cases hq : q.id = id <;> by_cases hq' : q'.id = id
  · simp only [hq, hq', if_true, Option.getD_some, saturatingAdd_right_comm]
  · simp only [hq, hq', if_true, if_false]
  · simp only [hq, hq', if_true, if_false]
  · simp only [hq, hq', if_false]

theorem foldl_add_of_perm {ps ps' : List Posting} (h : ps.Perm ps') (scores : Scores) :
    ps.foldl (fun s q => s.add q) scores = ps'.foldl (fun s q => s.add q) scores :=
  h.foldl_eq' (fun q _ q' _ scores => add_right_comm q q' scores) scores

def readable (s : Searcher) (w : String) : List Posting :=
  match listOf s w with
  | .ok ps => ps
  | .error _ => []

theorem scoresOf_of_ok {ws : List String} (h : ∀ w ∈ ws, ∃ ps, listOf s w = .ok ps)
    (scores : Scores) : scoresOf s scores ws =
      .ok ((ws.flatMap (readable s)).foldl (fun s q => s.add q) scores) := by
  induction ws generalizing scores with
  | nil => rfl
  | cons w ws ih =>
      obtain ⟨⟨ps, hps⟩, hws⟩ := List.forall_mem_cons.mp h
      have hread : readable s w = ps := by rw [readable, hps]
      rw [scoresOf, hps, ok_bind, ih hws, List.flatMap_cons, List.foldl_append, hread]

theorem scoresOf_of_error {ws : List String} {w : String} {e : Error} (hw : w ∈ ws)
    (he : listOf s w = .error e) (scores : Scores) : ∃ e, scoresOf s scores ws = .error e := by
  induction ws generalizing scores with
  | nil => simp at hw
  | cons v ws ih =>
      rw [scoresOf]
      cases hv : listOf s v with
      | error e => exact ⟨e, rfl⟩
      | ok ps =>
          rcases List.mem_cons.mp hw with rfl | hw
          · rw [hv] at he
            cases he
          · exact ih hw _

theorem scoresOf_of_perm {ws ws' : List String} (h : ws.Perm ws') :
    (∃ scores, scoresOf s ∅ ws = .ok scores ∧ scoresOf s ∅ ws' = .ok scores) ∨
      ∃ e e', scoresOf s ∅ ws = .error e ∧ scoresOf s ∅ ws' = .error e' := by
  by_cases hall : ∀ w ∈ ws, ∃ ps, listOf s w = .ok ps
  · have hall' : ∀ w ∈ ws', ∃ ps, listOf s w = .ok ps := fun w hw => hall w (h.mem_iff.mpr hw)
    refine .inl ⟨_, scoresOf_of_ok hall ∅, ?_⟩
    rw [scoresOf_of_ok hall' ∅, foldl_add_of_perm (h.flatMap_right (readable s)) ∅]
  · obtain ⟨w, hw, hnone⟩ : ∃ w ∈ ws, ¬ ∃ ps, listOf s w = .ok ps := by simpa using hall
    cases hlist : listOf s w with
    | ok ps => exact absurd ⟨ps, hlist⟩ hnone
    | error e =>
        obtain ⟨e, he⟩ := scoresOf_of_error hw hlist ∅
        obtain ⟨e', he'⟩ := scoresOf_of_error (h.mem_iff.mp hw) hlist ∅
        exact .inr ⟨e, e', he, he'⟩

theorem found_of_perm {ws ws' : List String} (h : ws.Perm ws') (limit : Nat) :
    (∃ hits, found s ws limit = .ok hits ∧ found s ws' limit = .ok hits) ∨
      ∃ e e', found s ws limit = .error e ∧ found s ws' limit = .error e' := by
  by_cases hlimit : limit = 0
  · subst hlimit
    exact .inl ⟨[], rfl, rfl⟩
  rw [found, found, if_neg hlimit, if_neg hlimit]
  obtain ⟨scores, hws, hws'⟩ | ⟨e, e', hws, hws'⟩ := scoresOf_of_perm (s := s) h
  · rw [hws, hws', ok_bind]
    cases hhits : hitsOf s (scores.ranked.take limit) with
    | ok hits => exact .inl ⟨hits, rfl, rfl⟩
    | error e => exact .inr ⟨e, e, rfl, rfl⟩
  · rw [hws, hws']
    exact .inr ⟨e, e', rfl, rfl⟩

theorem hitsOf_take {ranked : List (Bytes × UInt64)} {hits : List Hit}
    (h : hitsOf s ranked = .ok hits) (n : Nat) :
    hitsOf s (ranked.take n) = .ok (hits.take n) := by
  induction ranked generalizing hits n with
  | nil =>
      cases h
      rw [List.take_nil, List.take_nil]
      rfl
  | cons x ranked ih =>
      obtain ⟨id, k⟩ := x
      cases n with
      | zero => rfl
      | succ n =>
          rw [hitsOf] at h
          obtain ⟨stored, hstored, h⟩ := bind_eq_ok h
          cases stored with
          | none => cases h
          | some stored =>
              obtain ⟨rest, hrest, h⟩ := bind_eq_ok h
              cases h
              rw [List.take_succ_cons, List.take_succ_cons, hitsOf, hstored, ok_bind]
              dsimp only
              rw [ih hrest]
              rfl

theorem found_take {ws : List String} {m n : Nat} {hits : List Hit} (h : found s ws m = .ok hits)
    (hn : n ≤ m) : found s ws n = .ok (hits.take n) := by
  by_cases hzero : n = 0
  · subst hzero
    rfl
  have hm : m ≠ 0 := by omega
  rw [found, if_neg hm] at h
  obtain ⟨scores, hscores, h⟩ := bind_eq_ok h
  have hcut := hitsOf_take h n
  rw [List.take_take, Nat.min_eq_left hn] at hcut
  rw [found, if_neg hzero, hscores, ok_bind, hcut]

theorem eraseDups_perm {ws ws' : List String} (h : ∀ w, w ∈ ws ↔ w ∈ ws') :
    ws.eraseDups.Perm ws'.eraseDups := by
  apply (List.perm_ext_iff_of_nodup (WordCounts.nodup_eraseDups ws)
    (WordCounts.nodup_eraseDups ws')).mpr
  intro w
  rw [List.mem_eraseDups, List.mem_eraseDups, h]

theorem analyzer_of_ofBytes {file : Bytes} {c : AnalyzerConfig}
    (h : Searcher.ofBytes file c = .ok s) : s.analyzer = Analyzer.ofConfig c := by
  rw [Searcher.ofBytes, Searcher.ofInput] at h
  split at h
  · cases h
  obtain ⟨i, -, h⟩ := bind_eq_ok h
  generalize i.readExact Header.size = read at h
  obtain ⟨head, j⟩ := read
  obtain ⟨block, -, h⟩ := bind_eq_ok h
  obtain ⟨header, -, h⟩ := bind_eq_ok h
  dsimp only at h
  split at h
  · cases h
  split at h
  · cases h
  obtain ⟨documents, -, h⟩ := bind_eq_ok h
  obtain ⟨words, -, h⟩ := bind_eq_ok h
  cases h
  rfl

/-- Whatever bytes a file shorter than 4 GiB has that opens as an index, if 4096 and the two lengths
that its header gives add up in 64 bits: a search that gives hits gives the first of them under a
smaller limit, and searches for the same set of words give the same hits or fail both, whatever was
asked before the one and the other. -/
theorem search_stable (file : Bytes) (c : AnalyzerConfig) (hsmall : file.length < UInt32.size)
    (hfields : ∀ h, Header.decode (file.take Header.size) = .ok h → h.fileLength < UInt64.size)
    (s : Searcher) (hopen : Searcher.ofBytes file c = .ok s) (calls calls' : List Call)
    (t u : Searcher) (ht : t = calls.foldl Call.after s) (hu : u = calls'.foldl Call.after s) :
    (∀ query m hits, outcomeOf (Searcher.search query m t) = .ok hits → ∀ n ≤ m,
      outcomeOf (Searcher.search query n u) = .ok (hits.take n)) ∧
    (∀ query query', (∀ w, w ∈ (Analyzer.ofConfig c).words query ↔
        w ∈ (Analyzer.ofConfig c).words query') → ∀ n,
      (∃ hits, outcomeOf (Searcher.search query n t) = .ok hits ∧
        outcomeOf (Searcher.search query' n u) = .ok hits) ∨
      ∃ e e', outcomeOf (Searcher.search query n t) = .error e ∧
        outcomeOf (Searcher.search query' n u) = .error e') ∧
    (∀ query n, outcomeOf (Searcher.search query n t) = outcomeOf (Searcher.search query n u)) ∧
    (∀ id, outcomeOf (Searcher.document id t) = outcomeOf (Searcher.document id u)) ∧
    ∀ word, outcomeOf (Searcher.postings word t) = outcomeOf (Searcher.postings word u) := by
  obtain ⟨-, ⟨s', hopen', hhoused⟩ | ⟨e, herror, -⟩⟩ := ofBytes_agrees (c := c) hsmall hfields
  · obtain rfl : s' = s := Except.ok.inj (hopen'.symm.trans hopen)
    have hsettled := settled_afterAll hhoused (settled_self hhoused)
    have hanalyzer := analyzer_of_ofBytes hopen
    have hsearch : ∀ {v : Searcher}, Settled (.ofBytes file) s' v → ∀ query n,
        outcomeOf (Searcher.search query n v) =
          found s' ((Analyzer.ofConfig c).words query).eraseDups n := by
      intro v hv query n
      rw [← hanalyzer]
      exact (search_steady hhoused query n v hv).1
    have hst : Settled (.ofBytes file) s' t := ht ▸ hsettled calls
    have hsu : Settled (.ofBytes file) s' u := hu ▸ hsettled calls'
    refine ⟨?_, ?_, ?_, ?_, ?_⟩
    · intro query m hits hhits n hn
      rw [hsearch hst] at hhits
      rw [hsearch hsu]
      exact found_take hhits hn
    · intro query query' hwords n
      rw [hsearch hst, hsearch hsu]
      exact found_of_perm (eraseDups_perm hwords) n
    · intro query n
      rw [hsearch hst, hsearch hsu]
    · intro id
      rw [(document_steady hhoused id t hst).1, (document_steady hhoused id u hsu).1]
    · intro word
      rw [(postings_steady hhoused word t hst).1, (postings_steady hhoused word u hsu).1]
  · rw [hopen] at herror
    cases herror

def repeatingDocuments : List Record := [⟨[49], [120]⟩]

def repeatingWords : List Record :=
  [⟨Bytes.ofString "fox", [2, 1, 49, 255, 255, 255, 255, 255, 255, 255, 255, 255, 1, 1, 49, 5]⟩,
    ⟨Bytes.ofString "dog", [1, 1, 49, 1]⟩]

def repeatingHeader : Header := ⟨(Analyzer.ofConfig {}).fingerprint, 2074, 2122, 1, 2⟩

def repeating : Bytes :=
  repeatingHeader.encode ++ (image repeatingDocuments ++ image repeatingWords)

theorem length_repeating : repeating.length = 8292 := by
  rw [repeating, List.length_append, List.length_append, Header.length_encode,
    length_image, length_image]
  decide +kernel

theorem ofBytes_repeating : ∃ s, Searcher.ofBytes repeating {} = .ok s ∧
    Shows (.ofBytes repeating) repeatingDocuments s.documents ∧
    Shows (.ofBytes repeating) repeatingWords s.words := by
  obtain ⟨hheader, hdocuments, hwords⟩ :=
    IndexImage.lies_stores repeatingHeader repeatingDocuments repeatingWords
  rw [← repeating, ← Tape.toBytes_ofBytes repeating] at hheader hdocuments hwords
  have hsize : (Tape.ofBytes repeating).size = 8292 := by
    rw [Tape.size_ofBytes, length_repeating]
  obtain ⟨s, hopen, -, -, hshows⟩ := ofInput_stores (over_ofBytes repeating) hheader
    hdocuments hwords hsize.symm (by rw [hsize]; decide) (by decide +kernel) (by decide +kernel)
    (c := {}) rfl
  exact ⟨s, hopen, hshows⟩

theorem storedOf_of_shows {rs : List Record} (h : Shows p rs s.documents)
    (id : Bytes) : storedOf s id = .ok (values rs id).head? := by
  obtain ⟨t, hrun, -⟩ := onDocuments_spec (find_spec h id)
  rw [storedOf, Searcher.document, hrun, outcomeOf]

theorem listOf_of_shows {rs : List Record} (h : Shows p rs s.words)
    {w : String} {ps : List Posting}
    (hps : (values rs (Bytes.ofString w)).head?.map Posting.decode = some (.ok ps)) :
    listOf s w = .ok ps := by
  obtain ⟨b, hb, hdecode⟩ := Option.map_eq_some_iff.mp hps
  have hfind := find_spec h (Bytes.ofString w)
  rw [hb] at hfind
  obtain ⟨t, hrun, -⟩ := onWords_spec hfind
  rw [listOf, Searcher.postings, bind_of_ok hrun]
  simp only [hdecode]
  rfl

theorem found_repeating (hd : Shows p repeatingDocuments s.documents)
    (hw : Shows p repeatingWords s.words) :
    found s ["fox", "dog"] 3 = .ok [⟨[49], [120], 18446744073709551615⟩] := by
  have hfox : listOf s "fox" = .ok [⟨[49], 18446744073709551615⟩, ⟨[49], 5⟩] :=
    listOf_of_shows hw rfl
  have hdog : listOf s "dog" = .ok [⟨[49], 1⟩] := listOf_of_shows hw rfl
  have hstored : storedOf s [49] = .ok (some [120]) := storedOf_of_shows hd [49]
  have hscores : scoresOf s ∅ ["fox", "dog"] = .ok ([⟨[49], 18446744073709551615⟩, ⟨[49], 5⟩,
      ⟨[49], 1⟩].foldl (fun s q => s.add q) ∅) := by
    rw [scoresOf, hfox, ok_bind, scoresOf, hdog, ok_bind, scoresOf, ← List.foldl_append]
    exact congrArg Except.ok (congrArg (List.foldl _ ∅) rfl)
  have hranked : (([⟨[49], 18446744073709551615⟩, ⟨[49], 5⟩,
      ⟨[49], 1⟩] : List Posting).foldl (fun s q => s.add q) (∅ : Scores)).ranked =
      [([49], 18446744073709551615)] := by decide +kernel
  rw [found, if_neg (by decide), hscores, ok_bind, hranked]
  change hitsOf s [([49], 18446744073709551615)] = _
  rw [hitsOf, hstored]
  rfl

theorem search_stable_repeating : ∃ s, Searcher.ofBytes repeating {} = .ok s ∧
    ∀ calls : List Call, ∀ t, t = calls.foldl Call.after s →
      outcomeOf (Searcher.search "fox dog" 3 t) =
        .ok [⟨[49], [120], 18446744073709551615⟩] ∧
      outcomeOf (Searcher.search "fox dog" 0 t) = .ok [] ∧
      outcomeOf (Searcher.search "Dog, FOX; dog!" 3 t) =
        .ok [⟨[49], [120], 18446744073709551615⟩] := by
  obtain ⟨s, hopen, hdocuments, hwords⟩ := ofBytes_repeating
  have hsmall : repeating.length < UInt32.size := by
    rw [length_repeating]
    decide
  have hfields (h : Header) (hread : Header.decode (repeating.take Header.size) = .ok h) :
      h.fileLength < UInt64.size := by
    rw [repeating, ← Header.length_encode repeatingHeader, List.take_left,
      Codecs.decode_header] at hread
    cases hread
    decide
  have hhoused : Housed (.ofBytes repeating) s := by
    obtain ⟨-, ⟨s', hopen', hhoused⟩ | ⟨e, herror, -⟩⟩ := ofBytes_agrees (c := {}) hsmall hfields
    · exact Except.ok.inj (hopen'.symm.trans hopen) ▸ hhoused
    · cases hopen.symm.trans herror
  have hquery : (s.analyzer.words "fox dog").eraseDups = ["fox", "dog"] := by
    rw [analyzer_of_ofBytes hopen]
    decide +kernel
  have hfirst : outcomeOf (Searcher.search "fox dog" 3 s) =
      .ok [⟨[49], [120], 18446744073709551615⟩] := by
    rw [(search_steady hhoused "fox dog" 3 s (settled_self hhoused)).1, hquery]
    exact found_repeating hdocuments hwords
  refine ⟨s, hopen, ?_⟩
  intro calls t ht
  obtain ⟨hlimit, hreworded, -⟩ :=
    search_stable repeating {} hsmall hfields s hopen [] calls s t rfl ht
  refine ⟨hlimit _ 3 _ hfirst 3 (Nat.le_refl 3), hlimit _ 3 _ hfirst 0 (Nat.zero_le 3), ?_⟩
  have hset : ∀ w, w ∈ (Analyzer.ofConfig {}).words "fox dog" ↔
      w ∈ (Analyzer.ofConfig {}).words "Dog, FOX; dog!" := by
    intro w
    have hwords : (Analyzer.ofConfig {}).words "fox dog" = ["fox", "dog"] := by decide +kernel
    have hwords' : (Analyzer.ofConfig {}).words "Dog, FOX; dog!" = ["dog", "fox", "dog"] := by
      decide +kernel
    rw [hwords, hwords']
    grind
  obtain ⟨hits, hhits, hother⟩ | ⟨e, e', herror, -⟩ := hreworded _ _ hset 3
  · rw [hfirst] at hhits
    rwa [← hhits] at hother
  · rw [hfirst] at herror
    cases herror

end Concordance.Proofs.SearchStability
