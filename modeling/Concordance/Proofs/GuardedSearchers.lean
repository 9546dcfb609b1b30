import Concordance.Index.Searcher
import Concordance.Proofs.GuardedViews

namespace Concordance.Proofs.GuardedSearchers

open Analysis (Analyzer AnalyzerConfig)
open BlockStore (View Viewing)
open Index Guards

variable {σ α β : Type}

def varintFrom (shift : Nat) (read : UInt64) : Bytes → Guarded σ (UInt64 × Bytes)
  | [] => fail (.format .varintTruncated)
  | b :: rest =>
      if 64 ≤ shift then fail (.format .varintOverflow)
      else do
        check (shift < 64) .tooWide
        let read := read + UInt64.ofNat ((b.toNat % 128) <<< shift)
        if b.toNat < 128 then return (read, rest) else varintFrom (shift + 7) read rest

def varint (b : Bytes) : Guarded σ (UInt64 × Bytes) := varintFrom 0 0 b

def entry (b : Bytes) : Guarded σ (Posting × Bytes) := do
  let (length, b) ← varint b
  if (b.take length.toNat).length < length.toNat then fail (.format .postingIdTruncated)
  else
    inside 0 b.length 0 length.toNat
    let (count, rest) ← varint (b.drop length.toNat)
    return (⟨b.take length.toNat, count⟩, rest)

def entries : Nat → Bytes → Guarded σ (List Posting × Bytes)
  | 0, b => return ([], b)
  | n + 1, b => do
      let (p, b) ← entry b
      let (ps, rest) ← entries n b
      return (p :: ps, rest)

def entrySize : Nat := 32

/-- Nothing in memory is as long as this. -/
def roomLimit : Nat := Nat.pow 2 63

def decode (b : Bytes) : Guarded σ (List Posting) := do
  let (count, rest) ← varint b
  if rest.length / 3 + 1 < count.toNat then fail (.format (.postingCount count rest.length))
  else
    check (count.toNat * entrySize < roomLimit) .tooWide
    let (ps, rest) ← entries count.toNat rest
    if rest ≠ [] then fail (.format (.postingTrailing rest.length)) else return ps

def ofInput (i : Input) (c : AnalyzerConfig) : Except Stop Searcher := do
  if i.size < Header.size then throw (.failed (.format (.indexTruncated i.size)))
  let (head, i) := (← (i.seek (.start 0)).mapError .failed).readExact Header.size
  let header ← (Header.decode (← head.mapError .failed)).mapError fun f => .failed (.format f)
  if UInt64.size ≤ header.fileLength then throw .tooWide
  if header.fileLength ≠ i.size then
    throw (.failed (.format (.indexLength header.fileLength i.size)))
  let analyzer := Analyzer.ofConfig c
  if analyzer.fingerprint ≠ header.fingerprint then throw (.failed (.format .analyzerMismatch))
  let documents ← GuardedViews.ofInput i Header.size header.documentStoreLength.toNat
  if UInt64.size ≤ header.wordStoreOffset then throw .tooWide
  let words ← GuardedViews.ofInput i.clone header.wordStoreOffset header.wordStoreLength.toNat
  return ⟨header, analyzer, documents, words⟩

def ofBytes (file : Bytes) (c : AnalyzerConfig) : Except Stop Searcher := ofInput (.ofBytes file) c

def onDocuments (g : Guarded View α) : Guarded Searcher α :=
  focus Searcher.documents (fun s v => { s with documents := v }) g

def onWords (g : Guarded View α) : Guarded Searcher α :=
  focus Searcher.words (fun s v => { s with words := v }) g

def document (id : Bytes) : Guarded Searcher (Option Bytes) := onDocuments (GuardedViews.find id)

def postings (word : String) : Guarded Searcher (List Posting) := do
  match ← onWords (GuardedViews.find (Bytes.ofString word)) with
  | none => return []
  | some b => decode b

def score : Scores → List String → Guarded Searcher Scores
  | scores, [] => return scores
  | scores, w :: ws => do
      let ps ← postings w
      score (ps.foldl (fun s p => s.add p) scores) ws

def resolve : List (Bytes × UInt64) → Guarded Searcher (List Hit)
  | [] => return []
  | (id, n) :: rest => do
      match ← document id with
      | none => fail (.corrupt (.documentMissing id))
      | some stored => return ⟨id, stored, n⟩ :: (← resolve rest)

def search (query : String) (limit : Nat) : Guarded Searcher (List Hit) :=
  if limit = 0 then return []
  else do
    let words := ((← get).analyzer.words query).eraseDups
    let scores ← score ∅ words
    resolve (scores.ranked.take limit)

def formatted (x : Except FormatFault α) : EStateM Error σ α := fun s =>
  match x with
  | .ok a => .ok a s
  | .error fault => .error (.format fault) s

theorem formatted_bind (x : Except FormatFault α) (f : α → Except FormatFault β) :
    (formatted (x >>= f) : EStateM Error σ β) = (formatted x >>= fun a => formatted (f a)) := by
  cases x <;> rfl

theorem formatted_ite {c : Prop} [Decidable c] (x y : Except FormatFault α) :
    (formatted (if c then x else y) : EStateM Error σ α) =
      if c then formatted x else formatted y :=
  apply_ite formatted c x y

theorem mirrors_fail_formatted (fault : FormatFault) :
    Mirrors (fail (.format fault) : Guarded σ α) (formatted (.error fault)) := by
  intro s r h
  exact lifted_injective h

theorem mirrors_varintFrom (shift : Nat) (read : UInt64) (b : Bytes) :
    Mirrors (varintFrom shift read b : Guarded σ _) (formatted (Varint.decodeFrom shift read b)) := by
  induction b generalizing shift read with
  | nil => exact mirrors_fail_formatted _
  | cons b rest ih =>
      rw [varintFrom, Varint.decodeFrom, formatted_ite]
      apply Mirrors.ite (mirrors_fail_formatted _)
      apply Mirrors.check (by rintro e ⟨⟩)
      dsimp only
      rw [formatted_ite]
      exact Mirrors.ite (mirrors_pure _) (ih _ _)

theorem mirrors_varint (b : Bytes) :
    Mirrors (varint b : Guarded σ _) (formatted (Varint.decode b)) :=
  mirrors_varintFrom 0 0 b

theorem mirrors_entry (b : Bytes) :
    Mirrors (entry b : Guarded σ _) (formatted (Posting.decodeEntry b)) := by
  rw [Posting.decodeEntry, formatted_bind]
  apply (mirrors_varint b).bind
  rintro ⟨length, b⟩
  dsimp only
  rw [formatted_ite]
  apply Mirrors.ite (mirrors_fail_formatted _)
  apply Mirrors.inside
  rw [formatted_bind]
  exact (mirrors_varint _).bind fun x => mirrors_pure _

theorem mirrors_entries (n : Nat) (b : Bytes) :
    Mirrors (entries n b : Guarded σ _) (formatted (Posting.decodeEntries n b)) := by
  induction n generalizing b with
  | zero => exact mirrors_pure ([], b)
  | succ n ih =>
      rw [Posting.decodeEntries, formatted_bind]
      apply (mirrors_entry b).bind
      rintro ⟨p, b⟩
      dsimp only
      rw [formatted_bind]
      exact (ih b).bind fun x => mirrors_pure _

theorem mirrors_decode (b : Bytes) :
    Mirrors (decode b : Guarded σ _) (formatted (Posting.decode b)) := by
  rw [Posting.decode, formatted_bind]
  apply (mirrors_varint b).bind
  rintro ⟨count, rest⟩
  dsimp only
  rw [formatted_ite]
  apply Mirrors.ite (mirrors_fail_formatted _)
  apply Mirrors.check (by rintro e ⟨⟩)
  rw [Posting.decodeExactly, formatted_bind]
  apply (mirrors_entries _ rest).bind
  rintro ⟨ps, rest⟩
  dsimp only
  rw [formatted_ite]
  exact Mirrors.ite (mirrors_fail_formatted _) (mirrors_pure ps)

theorem onDocuments_eq_focus (m : Viewing α) : Searcher.onDocuments m =
    focus Searcher.documents (fun s v => { s with documents := v }) m := by
  funext s
  rw [Searcher.onDocuments, focus]
  cases m s.documents <;> rfl

theorem onWords_eq_focus (m : Viewing α) : Searcher.onWords m =
    focus Searcher.words (fun s v => { s with words := v }) m := by
  funext s
  rw [Searcher.onWords, focus]
  cases m s.words <;> rfl

theorem mirrors_onDocuments {g : Guarded View α} {m : Viewing α} (h : Mirrors g m) :
    Mirrors (onDocuments g) (Searcher.onDocuments m) := by
  rw [onDocuments_eq_focus]
  exact h.focus _ _

theorem mirrors_onWords {g : Guarded View α} {m : Viewing α} (h : Mirrors g m) :
    Mirrors (onWords g) (Searcher.onWords m) := by
  rw [onWords_eq_focus]
  exact h.focus _ _

theorem mirrors_document (id : Bytes) : Mirrors (document id) (Searcher.document id) :=
  mirrors_onDocuments (GuardedViews.mirrors_find id)

theorem mirrors_postings (word : String) : Mirrors (postings word) (Searcher.postings word) := by
  apply (mirrors_onWords (GuardedViews.mirrors_find _)).bind
  intro found
  cases found with
  | none => exact mirrors_pure []
  | some b =>
      have hdecode : Mirrors (decode b) (formatted (Posting.decode b) : Searching _) :=
        mirrors_decode b
      dsimp only
      cases hb : Posting.decode b with
      | ok ps =>
          rw [hb] at hdecode
          exact hdecode
      | error fault =>
          rw [hb] at hdecode
          exact hdecode

theorem mirrors_score (scores : Scores) (ws : List String) :
    Mirrors (score scores ws) (Searcher.score scores ws) := by
  induction ws generalizing scores with
  | nil => exact mirrors_pure scores
  | cons w ws ih => exact (mirrors_postings w).bind fun ps => ih _

theorem mirrors_resolve (ranked : List (Bytes × UInt64)) :
    Mirrors (resolve ranked) (Searcher.resolve ranked) := by
  induction ranked with
  | nil => exact mirrors_pure []
  | cons x ranked ih =>
      obtain ⟨id, n⟩ := x
      apply (mirrors_document id).bind
      intro found
      cases found with
      | none => exact mirrors_fail _
      | some stored => exact ih.bind fun hits => mirrors_pure _

theorem mirrors_search (query : String) (limit : Nat) :
    Mirrors (search query limit) (Searcher.search query limit) := by
  apply Mirrors.ite (mirrors_pure [])
  apply mirrors_get.bind
  intro s
  exact (mirrors_score ∅ _).bind fun scores => mirrors_resolve _

end Concordance.Proofs.GuardedSearchers
