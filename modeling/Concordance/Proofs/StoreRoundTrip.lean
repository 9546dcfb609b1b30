import Concordance.Proofs.StoreSearch

namespace Concordance.Proofs.StoreRoundTrip

open BlockStore Positioned Cursors Outcomes StoreImage StoreReading StoreSearch

variable {p : Tape} {rs : List Record} {v : View}

theorem recordAt_spec (h : Shows p rs v) {q : Nat × Record} (hq : q ∈ placed rs) {w : View}
    (hw : Moved p v w) : Gives (View.recordAt q.1) w q.2 (Moved p v) := by
  obtain ⟨-, hlast⟩ := record_stop_le hq
  have hsize : size rs = headerSize + dataSize rs + rs.length * (2 * slotSize) := rfl
  have hsmall := h.small
  obtain ⟨hkey, hvalue⟩ := lies_parts h hq
  obtain ⟨old, hold⟩ := hw.rereads
  rw [View.recordAt, if_neg (by omega)]
  apply Gives.bind (recordLengths_spec h hq hold)
  intro t ht
  apply Gives.bind (onReader_spec ht fun r hr => hr.takeChunk hkey)
  intro u hu
  apply Gives.bind (onReader_spec hu fun r hr => hr.takeChunk hvalue)
  intro x hx
  exact ⟨x, rfl, hx.moved⟩

theorem scan_spec (h : Shows p rs v) (n : Nat) {before rest : List Record} {w : View}
    (hrs : rs = before ++ rest) (hw : Moved p v w) :
    (w.scan n (headerSize + dataSize before)).1 = (rest.take n).map .ok ∧
      Moved p v (w.scan n (headerSize + dataSize before)).2 := by
  have hend : w.dataEnd = headerSize + dataSize rs := (hw.shows h).dataEnd
  induction n generalizing before rest w with
  | zero => exact ⟨rfl, hw⟩
  | succ n ih =>
      rw [View.scan, hend]
      cases rest with
      | nil =>
          rw [List.append_nil] at hrs
          rw [if_pos (by rw [hrs])]
          exact ⟨rfl, hw⟩
      | cons r rest =>
          have hmem : (headerSize + dataSize before, r) ∈ placed rs := by
            rw [hrs, placed, placedFrom_append]
            simp [placedFrom]
          have hsplit : rs = (before ++ [r]) ++ rest := by simp [hrs]
          have hnext : headerSize + dataSize (before ++ [r]) =
              headerSize + dataSize before + lengthsSize + r.key.length + r.value.length := by
            simp [dataSize, recordSize, Nat.add_assoc]
          have hlt : headerSize + dataSize before < headerSize + dataSize rs := by
            rw [hrs, dataSize_append]
            simp only [dataSize, List.map_cons, List.sum_cons, recordSize, lengthsSize]
            omega
          obtain ⟨t, ht, hmoved⟩ := recordAt_spec h hmem hw
          obtain ⟨hrest, hafter⟩ := ih hsplit hmoved (hmoved.shows h).dataEnd
          rw [hnext] at hrest hafter
          rw [if_neg (Nat.not_le_of_lt hlt), ht]
          simp only [List.take_succ_cons, List.map_cons]
          exact ⟨congrArg _ hrest, hafter⟩

/-- Whatever a view is asked, it stays over its store and its search goes on as it should. -/
structure Ready (p : Tape) (rs : List Record) (v : View) : Prop where
  shows : Shows p rs v
  search : ∀ c, v.lookup = some c → ∃ ms, Awaits rs c ms

theorem ready_of_searching {ms : List (Nat × Record)} (h : Searching p rs ms v) :
    Ready p rs v := by
  obtain ⟨hshows, c, hc, hawaits⟩ := h
  refine ⟨hshows, ?_⟩
  intro c' hc'
  obtain rfl : c' = c := by simpa [hc] using hc'.symm
  exact ⟨ms, hawaits⟩

theorem Ready.moved {w : View} (h : Ready p rs v) (hw : Moved p v w) : Ready p rs w := by
  refine ⟨hw.shows h.shows, ?_⟩
  obtain ⟨r, rfl, -⟩ := hw
  exact h.search

inductive Call where
  | find (key : Bytes)
  | findNext
  | findAll (key : Bytes)
  | records (n : Nat)

def Call.after (v : View) : Call → View
  | .find key => stateOf (View.find key v)
  | .findNext => stateOf (View.findNext v)
  | .findAll key => stateOf (View.findAll key v)
  | .records n => (v.records n).2

theorem records_spec (h : Shows p rs v) (n : Nat) :
    (v.records n).1 = (rs.take n).map .ok ∧ Moved p v (v.records n).2 := by
  have hnil : rs = [] ++ rs := (List.nil_append rs).symm
  exact scan_spec h n hnil h.movedSelf

theorem Ready.after (h : Ready p rs v) (call : Call) : Ready p rs (call.after v) := by
  cases call with
  | find key => exact ready_of_searching (Gives.leaves (find_spec h.shows key))
  | findNext =>
      cases hlookup : v.lookup with
      | none =>
          have hsame : View.findNext v = .ok none v := by
            rw [View.findNext, get_bind, hlookup]
            rfl
          rw [Call.after, hsame]
          exact h
      | some c =>
          obtain ⟨ms, hms⟩ := h.search c hlookup
          exact ready_of_searching (Gives.leaves (findNext_spec ⟨h.shows, c, hlookup, hms⟩))
  | findAll key => exact ready_of_searching (Gives.leaves (findAll_spec h.shows key))
  | records n => exact h.moved (records_spec h.shows n).2

theorem Ready.afterAll (h : Ready p rs v) (calls : List Call) :
    Ready p rs (calls.foldl Call.after v) := by
  induction calls generalizing v with
  | nil => exact h
  | cons call calls ih => exact ih (h.after call)

theorem length_le_dataSize (rs : List Record) : rs.length ≤ dataSize rs := by
  induction rs with
  | nil => exact Nat.le_refl 0
  | cons r rs ih =>
      simp only [dataSize, List.map_cons, List.sum_cons, recordSize, lengthsSize,
        List.length_cons] at ih ⊢
      omega

theorem allRecords_spec (h : Shows p rs v) : v.allRecords.1 = rs.map .ok := by
  have hlen := length_le_dataSize rs
  rw [View.allRecords, (records_spec h _).1, h.dataEnd, List.take_of_length_le (by omega)]

theorem ofBytes_image {rs : List Record} (h : size rs < UInt32.size) :
    ∃ v, View.ofBytes (image rs) = .ok v ∧ Shows (.ofBytes (image rs)) rs v ∧ v.lookup = none := by
  have hlies : Lies (Tape.ofBytes (image rs)).toBytes 0 (image rs) := by
    rw [Tape.toBytes_ofBytes]
    exact lies_self _
  have hsize : (Tape.ofBytes (image rs)).size = size rs := by
    rw [← Tape.length_toBytes, Tape.toBytes_ofBytes, length_image]
  have hlt : UInt32.size < UInt64.size := by decide
  obtain ⟨v, hv, hshows, -, hlookup⟩ := ofInput_spec (over_ofBytes (image rs)) hlies
    (by rw [hsize]; omega) h
  refine ⟨v, ?_, hshows, hlookup⟩
  rw [View.ofBytes, View.openAt, length_image]
  exact hv

theorem ofBytes_make {file : Bytes} {summary : Summary} (h : make rs = .ok (file, summary)) :
    ∃ v, View.ofBytes file = .ok v ∧ Ready (.ofBytes file) rs v := by
  obtain ⟨hsmall, heq⟩ := (make_eq_ok_iff rs _).mp h
  obtain ⟨rfl, -⟩ := Prod.mk.inj heq
  obtain ⟨v, hopen, hshows, hlookup⟩ := ofBytes_image hsmall
  refine ⟨v, hopen, hshows, ?_⟩
  intro c hc
  rw [hlookup] at hc
  cases hc

theorem allRecords_make {rs : List Record} (h : size rs < UInt32.size) :
    ∃ v, View.ofBytes (image rs) = .ok v ∧ v.allRecords.1 = rs.map .ok := by
  obtain ⟨v, hopen, hready⟩ := ofBytes_make (make_of_lt h)
  exact ⟨v, hopen, allRecords_spec hready.shows⟩

/-- A store whose file is shorter than 4 GiB gives back its records, after any calls. -/
theorem make_roundTrip (rs : List Record) (h : size rs < UInt32.size) :
    ∃ file summary v, make rs = .ok (file, summary) ∧ file.length = size rs ∧
      View.ofBytes file = .ok v ∧
      ∀ calls : List Call, ∀ w, w = calls.foldl Call.after v →
        (∀ key, ∃ u, View.findAll key w = .ok ((rs.filter (·.key = key)).map (·.value)) u) ∧
        (∀ key, ∃ u, View.find key w = .ok ((rs.filter (·.key = key)).map (·.value)).head? u) ∧
        (∀ n, (w.records n).1 = (rs.take n).map .ok) ∧ w.allRecords.1 = rs.map .ok := by
  obtain ⟨v, hopen, hready⟩ := ofBytes_make (make_of_lt h)
  refine ⟨_, _, v, make_of_lt h, length_image rs, hopen, ?_⟩
  rintro calls w rfl
  have hw := (hready.afterAll calls).shows
  refine ⟨?_, ?_, fun n => (records_spec hw n).1, allRecords_spec hw⟩
  · intro key
    obtain ⟨u, hu, -⟩ := findAll_spec hw key
    exact ⟨u, hu⟩
  · intro key
    obtain ⟨u, hu, -⟩ := find_spec hw key
    exact ⟨u, hu⟩

theorem make_roundTrip_collision :
    KeyHash.hash [1, 36] = KeyHash.hash [0, 69] ∧
      ∃ file summary v, make [⟨[1, 36], [7]⟩, ⟨[0, 69], [8]⟩, ⟨[1, 36], []⟩] = .ok (file, summary) ∧
        View.ofBytes file = .ok v ∧ (∃ u, View.findAll [1, 36] v = .ok [[7], []] u) ∧
        ∃ u, View.find [0, 69] v = .ok (some [8]) u := by
  obtain ⟨file, summary, v, hmake, -, hopen, hafter⟩ :=
    make_roundTrip [⟨[1, 36], [7]⟩, ⟨[0, 69], [8]⟩, ⟨[1, 36], []⟩] (by decide)
  obtain ⟨hall, hfirst, -⟩ := hafter [] v rfl
  exact ⟨by decide, file, summary, v, hmake, hopen, hall [1, 36], hfirst [0, 69]⟩

end Concordance.Proofs.StoreRoundTrip
