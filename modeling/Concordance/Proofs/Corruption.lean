import Concordance.Proofs.GuardedSearchers
import Concordance.Proofs.IndexRoundTrip
import Concordance.Proofs.StoreSafety

namespace Concordance.Proofs.Corruption

open Analysis (Analyzer AnalyzerConfig)
open BlockStore (View Viewing)
open Index Outcomes Cursors Guards GuardedSearchers Containment
open StoreImage (image length_image length_refs)
open StoreReading (lies_refs mem_refs)
open StoreSafety (Sound ofInput_contained sound_of_lies fullTable length_fullTable sound_fullTable)
open IndexRoundTrip (Call)

variable {p : Tape} {s : Searcher} {α σ : Type} {t : σ}

structure Housed (p : Tape) (s : Searcher) : Prop where
  documents : Contained p s.documents
  words : Contained p s.words

def Refused (p : Tape) (e : Error) (t : Searcher) : Prop := e.isCorruption = true ∧ Housed p t

theorem isCorruption_of_isFormat {e : Error} (h : IsFormat e) : e.isCorruption = true := by
  obtain ⟨fault, rfl⟩ := h
  rfl

def Undecoded (t : σ) (e : Error) (u : σ) : Prop := u = t ∧ IsFormat e

theorem varintFrom_fares (shift : Nat) (read : UInt64) (b : Bytes) :
    Fares (varintFrom shift read b) t (fun x u => u = t ∧ x.2.length ≤ b.length) (Undecoded t) := by
  induction b generalizing shift read with
  | nil => exact fares_fail ⟨rfl, _, rfl⟩
  | cons b rest ih =>
      have hrest : rest.length ≤ (b :: rest).length := Nat.le_succ _
      apply fares_ite
      · exact fun _ => fares_fail ⟨rfl, _, rfl⟩
      · intro hshift
        apply fares_check_bind (Nat.lt_of_not_le hshift)
        apply fares_ite
        · exact fun _ => fares_pure ⟨rfl, hrest⟩
        · exact fun _ => (ih _ _).mono (fun x u hx => ⟨hx.1, hx.2.trans hrest⟩) fun e u he => he

theorem varint_fares (b : Bytes) :
    Fares (varint b) t (fun x u => u = t ∧ x.2.length ≤ b.length) (Undecoded t) :=
  varintFrom_fares 0 0 b

theorem entry_fares (b : Bytes) : Fares (entry b) t (fun _ u => u = t) (Undecoded t) := by
  apply (varint_fares b).bind
  rintro ⟨length, rest⟩ u ⟨rfl, -⟩
  apply fares_ite
  · exact fun _ => fares_fail ⟨rfl, _, rfl⟩
  · intro hlong
    rw [List.length_take] at hlong
    apply fares_inside_bind (Nat.zero_le _) (by omega)
    apply (varint_fares _).bind
    rintro x v ⟨rfl, -⟩
    exact fares_pure rfl

theorem entries_fares (n : Nat) (b : Bytes) :
    Fares (entries n b) t (fun _ u => u = t) (Undecoded t) := by
  induction n generalizing b with
  | zero => exact fares_pure rfl
  | succ n ih =>
      apply (entry_fares b).bind
      rintro ⟨q, rest⟩ u rfl
      apply (ih rest).bind
      rintro x v rfl
      exact fares_pure rfl

theorem decode_fares {b : Bytes} (hb : (b.length / 3 + 1) * entrySize < roomLimit) :
    Fares (decode b) t (fun _ u => u = t) (Undecoded t) := by
  apply (varint_fares b).bind
  rintro ⟨count, rest⟩ u ⟨rfl, hrest⟩
  apply fares_ite
  · exact fun _ => fares_fail ⟨rfl, _, rfl⟩
  · intro hcount
    have hroom : count.toNat * entrySize < roomLimit := by
      simp only [entrySize, roomLimit, Nat.pow_eq] at hb ⊢
      dsimp only at hcount hrest
      omega
    apply fares_check_bind hroom
    apply (entries_fares _ _).bind
    rintro ⟨ps, left⟩ v rfl
    apply fares_ite
    · exact fun _ => fares_fail ⟨rfl, _, rfl⟩
    · exact fun _ => fares_pure rfl

theorem document_fares (h : Housed p s) (id : Bytes) :
    Fares (document id) s (fun _ t => Housed p t) (Refused p) := by
  apply (find_fares h.documents id).focus
  · exact fun found v hv => ⟨hv.1.contained, h.words⟩
  · exact fun e v hv => ⟨isCorruption_of_isFormat hv.1, hv.2.contained, h.words⟩

theorem postings_fares (h : Housed p s) (word : String) :
    Fares (postings word) s (fun _ t => Housed p t) (Refused p) := by
  have hfind : Fares (onWords (GuardedViews.find (Bytes.ofString word))) s
      (fun found t => Housed p t ∧ ∀ b ∈ found, b.length < UInt32.size) (Refused p) := by
    apply (find_fares h.words (Bytes.ofString word)).focus
    · exact fun found v hv => ⟨⟨h.documents, hv.1.contained⟩,
        fun b hb => h.words.length_lt (hv.2 b hb)⟩
    · exact fun e v hv => ⟨isCorruption_of_isFormat hv.1, h.documents, hv.2.contained⟩
  apply hfind.bind
  rintro found t ⟨ht, hfound⟩
  cases found with
  | none => exact fares_pure ht
  | some b =>
      have hshort : b.length < 2 ^ 32 := hfound b rfl
      have hroom : (b.length / 3 + 1) * entrySize < roomLimit := by
        simp only [entrySize, roomLimit, Nat.pow_eq]
        omega
      apply (decode_fares hroom).mono
      · rintro ps u rfl
        exact ht
      · rintro e u ⟨rfl, he⟩
        exact ⟨isCorruption_of_isFormat he, ht⟩

theorem score_fares (h : Housed p s) (scores : Scores) (ws : List String) :
    Fares (score scores ws) s (fun _ t => Housed p t) (Refused p) := by
  induction ws generalizing s scores with
  | nil => exact fares_pure h
  | cons w ws ih => exact (postings_fares h w).bind fun ps t ht => ih ht _

theorem resolve_fares (h : Housed p s) (ranked : List (Bytes × UInt64)) :
    Fares (resolve ranked) s (fun _ t => Housed p t) (Refused p) := by
  induction ranked generalizing s with
  | nil => exact fares_pure h
  | cons x ranked ih =>
      obtain ⟨id, n⟩ := x
      apply (document_fares h id).bind
      intro found t ht
      cases found with
      | none => exact fares_fail ⟨rfl, ht⟩
      | some stored => exact (ih ht).bind fun hits u hu => fares_pure hu

theorem search_fares (h : Housed p s) (query : String) (limit : Nat) :
    Fares (search query limit) s (fun _ t => Housed p t) (Refused p) := by
  apply fares_ite
  · exact fun _ => fares_pure h
  · intro _
    apply fares_get_bind
    apply (score_fares h ∅ _).bind
    exact fun scores t ht => resolve_fares ht _

structure Intact (file : Bytes) (c : AnalyzerConfig) (h : Header) : Prop where
  header : Header.decode (file.take Header.size) = .ok h
  length : h.fileLength = file.length
  fingerprint : (Analyzer.ofConfig c).fingerprint = h.fingerprint
  documents : Sound file Header.size h.documentStoreLength.toNat
  words : Sound file h.wordStoreOffset h.wordStoreLength.toNat

def Unopened (file : Bytes) (c : AnalyzerConfig) (e : Error) : Prop :=
  IsFormat e ∧ ∀ h, ¬ Intact file c h

theorem stores_within {h : Header} (hlength : h.fileLength < UInt32.size) :
    h.documentStoreLength.toNat < UInt32.size ∧ h.wordStoreLength.toNat < UInt32.size ∧
      Header.size + h.documentStoreLength.toNat ≤ h.fileLength ∧
      h.wordStoreOffset + h.wordStoreLength.toNat = h.fileLength := by
  have hfile : h.fileLength =
      Header.size + h.documentStoreLength.toNat + h.wordStoreLength.toNat := rfl
  exact ⟨by omega, by omega, by omega, rfl⟩

theorem ofInput_agrees {i : Input} (hi : Over p i) (hsmall : p.size < UInt32.size)
    (hfields : ∀ h, Header.decode (p.toBytes.take Header.size) = .ok h →
      h.fileLength < UInt64.size) (c : AnalyzerConfig) :
    Agrees (GuardedSearchers.ofInput i c) (Searcher.ofInput i c) (Housed p)
      (Unopened p.toBytes c) := by
  have hsize : p.toBytes.length = p.size := rfl
  have hmax : UInt32.size < UInt64.size := by decide
  rw [GuardedSearchers.ofInput, Searcher.ofInput]
  apply agrees_ite
  · intro hshort
    refine agrees_error ⟨⟨_, rfl⟩, ?_⟩
    intro h hintact
    have hfile : Header.size ≤ h.fileLength := by
      rw [Header.fileLength, Nat.add_assoc]
      exact Nat.le_add_right _ _
    rw [hi.size_eq] at hshort
    rw [hintact.length] at hfile
    omega
  intro hlong
  rw [hi.size_eq] at hlong
  obtain ⟨j, hj, hover, hpos⟩ := hi.seek (n := 0) (by decide)
  obtain ⟨k, hk, hover', -⟩ := hover.readExact Header.size
  rw [hpos, if_pos (by omega)] at hk
  simp only [hj, hk, ok_bind, mapError_ok]
  cases hdecode : Header.decode (p.toBytes.slice 0 Header.size) with
  | error fault =>
      refine agrees_error ⟨⟨fault, rfl⟩, ?_⟩
      intro h hintact
      cases hdecode.symm.trans hintact.header
  | ok h =>
      -- the file has no other header, so that each fault found is that of every header
      have hfault {e : Error} (he : IsFormat e) (hout : ¬ Intact p.toBytes c h) :
          Unopened p.toBytes c e := by
        refine ⟨he, ?_⟩
        intro h' hintact
        cases hdecode.symm.trans hintact.header
        exact hout hintact
      simp only [ok_bind, mapError_ok]
      apply Agrees.check _ (Nat.not_le_of_lt (hfields h hdecode))
      apply agrees_ite
      · intro hlength
        exact agrees_error (hfault ⟨_, rfl⟩ fun hintact =>
          hlength (hintact.length.trans hover'.size_eq.symm))
      intro hlength
      rw [ne_eq, not_not, hover'.size_eq] at hlength
      obtain ⟨hdocuments, hwords, hinside, hsum⟩ := stores_within (h := h) (by omega)
      apply agrees_ite
      · exact fun hprint => agrees_error (hfault ⟨_, rfl⟩ fun hintact => hprint hintact.fingerprint)
      intro _
      have hdocumentsOpen : Agrees (GuardedViews.ofInput k Header.size h.documentStoreLength.toNat)
          (View.ofInput k Header.size h.documentStoreLength.toNat) (Contained p)
          (Unopened p.toBytes c) :=
        (ofInput_contained hover' hdocuments (by omega) (by omega)).mono (fun v hv => hv.contained)
          fun e he => hfault he.1 fun hintact => he.2 hintact.documents
      have hwordsOpen : Agrees
          (GuardedViews.ofInput k.clone h.wordStoreOffset h.wordStoreLength.toNat)
          (View.ofInput k.clone h.wordStoreOffset h.wordStoreLength.toNat) (Contained p)
          (Unopened p.toBytes c) :=
        (ofInput_contained hover'.clone hwords (by omega) (by omega)).mono
          (fun v hv => hv.contained) fun e he => hfault he.1 fun hintact => he.2 hintact.words
      apply hdocumentsOpen.bind
      intro documents hd
      apply Agrees.check _ (by omega)
      apply hwordsOpen.bind
      exact fun words hw => agrees_ok ⟨hd, hw⟩

theorem ofBytes_agrees {file : Bytes} {c : AnalyzerConfig} (hsmall : file.length < UInt32.size)
    (hfields : ∀ h, Header.decode (file.take Header.size) = .ok h → h.fileLength < UInt64.size) :
    Agrees (GuardedSearchers.ofBytes file c) (Searcher.ofBytes file c) (Housed (.ofBytes file))
      (Unopened file c) := by
  have hbytes := Tape.toBytes_ofBytes file
  rw [← Tape.size_ofBytes] at hsmall
  have h := ofInput_agrees (over_ofBytes file) hsmall (by rwa [hbytes]) c
  rwa [hbytes] at h

/-- A question is answered or fails because the file is corrupt, and no guard stops it. -/
def Answers (g : Guarded Searcher α) (m : Searching α) (s : Searcher) : Prop :=
  g s = bare m s ∧ ((∃ a t, m s = .ok a t) ∨ ∃ e t, m s = .error e t ∧ e.isCorruption = true)

theorem answers_of_fares {g : Guarded Searcher α} {m : Searching α} {Q : α → Searcher → Prop}
    (h : Fares g s Q (Refused p)) (hm : Mirrors g m) : Answers g m s := by
  obtain ⟨hsame, ⟨a, t, hrun, -⟩ | ⟨e, t, hrun, he, -⟩⟩ := h.eq_bare hm
  · exact ⟨hsame, .inl ⟨a, t, hrun⟩⟩
  · exact ⟨hsame, .inr ⟨e, t, hrun, he⟩⟩

theorem housed_of_fares {g : Guarded Searcher α} {m : Searching α}
    (h : Fares g s (fun _ t => Housed p t) (Refused p)) (hm : Mirrors g m) :
    Housed p (stateOf (m s)) := by
  obtain ⟨-, ⟨a, t, hrun, ht⟩ | ⟨e, t, hrun, -, ht⟩⟩ := h.eq_bare hm
  · rwa [hrun]
  · rwa [hrun]

theorem housed_after (h : Housed p s) (call : Call) : Housed p (call.after s) := by
  cases call with
  | document id => exact housed_of_fares (document_fares h id) (mirrors_document id)
  | postings word => exact housed_of_fares (postings_fares h word) (mirrors_postings word)
  | search query limit =>
      exact housed_of_fares (search_fares h query limit) (mirrors_search query limit)

theorem housed_afterAll (h : Housed p s) (calls : List Call) :
    Housed p (calls.foldl Call.after s) := by
  induction calls generalizing s with
  | nil => exact h
  | cons call calls ih => exact ih (housed_after h call)

/-- Whatever bytes a file shorter than 4 GiB has, if 4096 and the two lengths that its header gives
add up in 64 bits: the searcher opens or finds a fault of the format, and after any calls every
question is answered or finds the file corrupt. -/
theorem ofBytes_corruption (file : Bytes) (c : AnalyzerConfig) (hsmall : file.length < UInt32.size)
    (hfields : ∀ h, Header.decode (file.take Header.size) = .ok h → h.fileLength < UInt64.size) :
    GuardedSearchers.ofBytes file c = (Searcher.ofBytes file c).mapError .failed ∧
      ((∃ e, Searcher.ofBytes file c = .error e ∧ IsFormat e) ∨
        ∃ s, Searcher.ofBytes file c = .ok s ∧
          ∀ calls : List Call, ∀ t, t = calls.foldl Call.after s →
            (∀ id, Answers (document id) (Searcher.document id) t) ∧
            (∀ word, Answers (postings word) (Searcher.postings word) t) ∧
            ∀ query limit, Answers (search query limit) (Searcher.search query limit) t) := by
  obtain ⟨hguarded, ⟨s, hopen, hhoused⟩ | ⟨e, hopen, he, -⟩⟩ := ofBytes_agrees hsmall hfields
  · refine ⟨hguarded, .inr ⟨s, hopen, ?_⟩⟩
    rintro calls t rfl
    have ht := housed_afterAll hhoused calls
    exact ⟨fun id => answers_of_fares (document_fares ht id) (mirrors_document id),
      fun word => answers_of_fares (postings_fares ht word) (mirrors_postings word),
      fun query limit => answers_of_fares (search_fares ht query limit)
        (mirrors_search query limit)⟩
  · exact ⟨hguarded, .inl ⟨e, hopen, he⟩⟩

theorem ofBytes_of_intact {file : Bytes} {c : AnalyzerConfig} {h : Header}
    (hintact : Intact file c h) (hsmall : file.length < UInt32.size) :
    ∃ s, Searcher.ofBytes file c = .ok s := by
  have hmax : UInt32.size < UInt64.size := by decide
  have hfields (h' : Header) (hdecode : Header.decode (file.take Header.size) = .ok h') :
      h'.fileLength < UInt64.size := by
    cases hdecode.symm.trans hintact.header
    rw [hintact.length]
    omega
  obtain ⟨-, ⟨s, hopen, -⟩ | ⟨e, -, -, hout⟩⟩ := ofBytes_agrees hsmall hfields
  · exact ⟨s, hopen⟩
  · exact absurd hintact (hout h)

def damagedHeader : Header := ⟨(Analyzer.ofConfig {}).fingerprint, 2048, 2056, 0, 0⟩

/-- An index of no documents, the word store of which is taken up by a table without an empty
slot. -/
def damaged : Bytes := damagedHeader.encode ++ (image [] ++ fullTable)

theorem intact_damaged : Intact damaged {} damagedHeader := by
  have hstores := lies_append_right damagedHeader.encode (image [] ++ fullTable)
  rw [Header.length_encode] at hstores
  have htake : damaged.take Header.size = damagedHeader.encode := by
    rw [damaged, ← Header.length_encode damagedHeader, List.take_left]
  refine ⟨?_, ?_, rfl, ?_, ?_⟩
  · rw [htake, Codecs.decode_header]
  · rw [damaged, List.length_append, List.length_append, Header.length_encode, length_image,
      length_fullTable]
    rfl
  · have hrefs := hstores.left.trans (lies_refs [])
    exact sound_of_lies hrefs (length_refs []) (by decide) (by decide) fun t ht => mem_refs ht
  · have hwords := hstores.right
    rw [length_image] at hwords
    exact sound_fullTable hwords

theorem ofBytes_corruption_damaged : ∃ s, Searcher.ofBytes damaged {} = .ok s ∧
    ∀ query limit, (∃ hits t, Searcher.search query limit s = .ok hits t) ∨
      ∃ e t, Searcher.search query limit s = .error e t ∧ e.isCorruption = true := by
  have hlength : damaged.length = damagedHeader.fileLength := intact_damaged.length.symm
  have hsmall : damaged.length < UInt32.size := by
    rw [hlength]
    decide
  obtain ⟨s, hopen⟩ := ofBytes_of_intact intact_damaged hsmall
  obtain ⟨-, ⟨e, herror, -⟩ | ⟨u, hu, hafter⟩⟩ := ofBytes_corruption damaged {} hsmall (by
    intro h hdecode
    cases hdecode.symm.trans intact_damaged.header
    decide)
  · rw [hopen] at herror
    cases herror
  · obtain ⟨-, -, hsearch⟩ := hafter [] u rfl
    exact ⟨u, hu, fun query limit => (hsearch query limit).2⟩

end Concordance.Proofs.Corruption
