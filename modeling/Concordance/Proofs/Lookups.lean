import Concordance.Proofs.DumpRoundTrip
import Concordance.Proofs.StoreSafety

namespace Concordance.Proofs.Lookups

open BlockStore Positioned Cursors Outcomes GuardedViews StoreImage StoreReading StoreSearch
  DumpRoundTrip StoreSafety
open StoreRoundTrip hiding Call

variable {p : Tape} {rs : List Record} {v w : View} {awaited : List Bytes}

def crowds (rs : List Record) : List Nat :=
  (List.range bucketCount).map fun i => rs.countP fun r => bucketOf (KeyHash.hash r.key) = i

/-- The statistics of the records: a bucket is used if it has a record, and its table has two slots
for each. -/
def statsOf (rs : List Record) : Stats :=
  ⟨rs.length, size rs, (crowds rs).countP (0 < ·), (crowds rs).foldl (fun n k => max n (2 * k)) 0⟩

/-- The answer to a call, and the values that the search under way has to give after it. -/
def asked (rs : List Record) (awaited : List Bytes) : Call → Answer × List Bytes
  | .findStart key => (.started, values rs key)
  | .findNext => (.value awaited.head?, awaited.tail)
  | .find key => (.value (values rs key).head?, (values rs key).tail)
  | .findAll key => (.values (values rs key), [])
  | .records n => (.records ((rs.take n).map .ok), awaited)
  | .stats => (.stats (statsOf rs), awaited)
  | .dump => (.dump (Dump.encode rs) (.ok rs.length), awaited)

def askedAll (rs : List Record) (awaited : List Bytes) : List Call → List Answer
  | [] => []
  | call :: calls => (asked rs awaited call).1 :: askedAll rs (asked rs awaited call).2 calls

theorem size_table (rs : List Record) (bucket : Nat) :
    (table rs bucket).size = 2 * rs.countP fun r => bucketOf (KeyHash.hash r.key) = bucket := by
  have hcount : ((entries rs).filter fun e => bucketOf e.hash = bucket).length =
      rs.countP fun r => bucketOf (KeyHash.hash r.key) = bucket := by
    rw [← List.countP_eq_length_filter, entries, List.countP_map]
    nth_rewrite 2 [← map_snd_placedFrom headerSize rs]
    rw [List.countP_map]
    rfl
  rw [table, Table.size_build, hcount]

theorem map_size_tables (rs : List Record) :
    (tables rs).map Array.size = (crowds rs).map (2 * ·) := by
  rw [tables, crowds, List.map_map, List.map_map]
  exact List.map_congr_left fun i _ => size_table rs i

theorem map_slots_refsFrom (pos : Nat) (ts : List (Array Slot)) :
    (refsFrom pos ts).map TableRef.slots = ts.map Array.size := by
  induction ts generalizing pos with
  | nil => rfl
  | cons t ts ih => rw [refsFrom, List.map_cons, List.map_cons, ih]

theorem map_slots_refs (rs : List Record) :
    (refs rs).map TableRef.slots = (crowds rs).map (2 * ·) := by
  rw [refs, map_slots_refsFrom, map_size_tables]

theorem countP_refs (rs : List Record) :
    (refs rs).countP (fun t => 0 < t.slots) = (crowds rs).countP (0 < ·) := by
  have hslots : (refs rs).countP (fun t => 0 < t.slots) =
      ((refs rs).map TableRef.slots).countP (0 < ·) := by
    rw [List.countP_map]
    rfl
  rw [hslots, map_slots_refs, List.countP_map]
  apply List.countP_congr
  intro k _
  simp

theorem foldl_max_refs (rs : List Record) :
    (refs rs).foldl (fun n t => max n t.slots) 0 =
      (crowds rs).foldl (fun n k => max n (2 * k)) 0 := by
  have hslots : (refs rs).foldl (fun n t => max n t.slots) 0 =
      ((refs rs).map TableRef.slots).foldl max 0 := by
    rw [List.foldl_map]
  rw [hslots, map_slots_refs, List.foldl_map]

theorem allRecords_moved (h : Shows p rs v) : Moved p v v.allRecords.2 := (records_spec h _).2

theorem stats_spec (h : Shows p rs v) : Gives View.stats v (statsOf rs) (Moved p v) := by
  have hfound := allRecords_spec h
  have hmoved := allRecords_moved h
  rw [Gives, View.stats]
  generalize v.allRecords = found at hfound hmoved ⊢
  obtain ⟨found, w⟩ := found
  obtain rfl : found = rs.map .ok := hfound
  refine ⟨w, ?_, hmoved⟩
  simp only [mapM_map_ok]
  rw [h.length, h.tables, countP_refs, foldl_max_refs, statsOf]

theorem dump_spec (h : Shows p rs v) :
    Gives dumped v (Dump.encode rs, .ok rs.length) (Moved p v) := by
  obtain ⟨htext, hcount⟩ := dump_of_allRecords (allRecords_spec h)
  refine ⟨v.dump.2.2, by rw [dumped, htext, hcount], ?_⟩
  have hmoved := allRecords_moved h
  rw [View.dump]
  generalize v.allRecords = found at hmoved ⊢
  obtain ⟨found, w⟩ := found
  dsimp only
  cases found.mapM id <;> exact hmoved

/-- The search under way in a view over a store still has to give these values. -/
structure Tracks (p : Tape) (rs : List Record) (awaited : List Bytes) (v : View) : Prop where
  shows : Shows p rs v
  idle : v.lookup = none → awaited = []
  search : ∀ c, v.lookup = some c → ∃ ms, Awaits rs c ms ∧ ms.map (·.2.value) = awaited

theorem tracks_of_searching {ms : List (Nat × Record)} (h : Searching p rs ms v) :
    Tracks p rs (ms.map (·.2.value)) v := by
  obtain ⟨hshows, c, hc, hawaits⟩ := h
  refine ⟨hshows, fun hnone => by simp [hnone] at hc, ?_⟩
  intro c' hc'
  obtain rfl : c' = c := by simpa [hc] using hc'.symm
  exact ⟨ms, hawaits, rfl⟩

theorem tracks_of_idle (h : Shows p rs v) (hidle : v.lookup = none) : Tracks p rs [] v := by
  refine ⟨h, fun _ => rfl, ?_⟩
  intro c hc
  rw [hidle] at hc
  cases hc

theorem Tracks.moved (h : Tracks p rs awaited v) (hw : Moved p v w) : Tracks p rs awaited w := by
  have hshows := hw.shows h.shows
  obtain ⟨r, rfl, -⟩ := hw
  exact ⟨hshows, h.idle, h.search⟩

theorem findNext_tracks (h : Tracks p rs awaited v) :
    Gives View.findNext v awaited.head? (Tracks p rs awaited.tail) := by
  cases hlookup : v.lookup with
  | none =>
      obtain rfl := h.idle hlookup
      refine ⟨v, ?_, h⟩
      rw [View.findNext, get_bind, hlookup]
      rfl
  | some c =>
      obtain ⟨ms, hms, rfl⟩ := h.search c hlookup
      rw [List.head?_map, ← List.map_tail]
      exact (findNext_spec ⟨h.shows, c, hlookup, hms⟩).mono fun t ht => tracks_of_searching ht

theorem findStart_tracks (h : Shows p rs v) (key : Bytes) :
    Tracks p rs (values rs key) (v.findStart key) := by
  rw [← map_hits]
  exact tracks_of_searching (findStart_spec h key)

theorem find_tracks (h : Shows p rs v) (key : Bytes) :
    Gives (View.find key) v (values rs key).head? (Tracks p rs (values rs key).tail) := by
  apply (find_spec h key).mono
  intro t ht
  rw [← map_hits, ← List.map_tail]
  exact tracks_of_searching ht

theorem findAll_tracks (h : Shows p rs v) (key : Bytes) :
    Gives (View.findAll key) v (values rs key) (Tracks p rs []) :=
  (findAll_spec h key).mono fun _ ht => tracks_of_searching ht

theorem run_tracks (h : Tracks p rs awaited v) (call : Call) :
    Gives call.run v (asked rs awaited call).1 (Tracks p rs (asked rs awaited call).2) := by
  cases call with
  | findStart key => exact ⟨v.findStart key, rfl, findStart_tracks h.shows key⟩
  | findNext => exact (findNext_tracks h).bind fun t ht => ⟨t, rfl, ht⟩
  | find key => exact (find_tracks h.shows key).bind fun t ht => ⟨t, rfl, ht⟩
  | findAll key => exact (findAll_tracks h.shows key).bind fun t ht => ⟨t, rfl, ht⟩
  | records n =>
      obtain ⟨hfound, hmoved⟩ := records_spec h.shows n
      refine ⟨(v.records n).2, ?_, h.moved hmoved⟩
      rw [asked, ← hfound]
      rfl
  | stats => exact (stats_spec h.shows).bind fun t ht => ⟨t, rfl, h.moved ht⟩
  | dump => exact (dump_spec h.shows).bind fun t ht => ⟨t, rfl, h.moved ht⟩

theorem mapM_run_tracks (h : Tracks p rs awaited v) (calls : List Call) :
    ∃ left, Gives (calls.mapM Call.run) v (askedAll rs awaited calls) (Tracks p rs left) := by
  induction calls generalizing v awaited with
  | nil => exact ⟨awaited, v, rfl, h⟩
  | cons call calls ih =>
      obtain ⟨t, hrun, ht⟩ := run_tracks h call
      obtain ⟨left, u, hrest, hu⟩ := ih ht
      refine ⟨left, u, ?_, hu⟩
      rw [List.mapM_cons, bind_of_ok hrun, bind_of_ok hrest]
      rfl

/-- The view of a store that was made answers any calls in any order, without a failure, as its
records would: `findNext` goes on with the search that was begun last, which nothing but the search
for another key disturbs, and iterations, statistics and dumps tell of all records. -/
theorem answers_make (rs : List Record) (file : Bytes) (summary : Summary)
    (h : make rs = .ok (file, summary)) :
    ∃ v, View.ofBytes file = .ok v ∧
      ∀ calls : List Call, ∃ w, calls.mapM Call.run v = .ok (askedAll rs [] calls) w := by
  obtain ⟨hsmall, hout⟩ := (make_eq_ok_iff rs _).mp h
  obtain ⟨rfl, -⟩ := Prod.mk.inj hout
  obtain ⟨v, hopen, hshows, hlookup⟩ := ofBytes_image hsmall
  refine ⟨v, hopen, ?_⟩
  intro calls
  obtain ⟨-, w, hrun, -⟩ := mapM_run_tracks (tracks_of_idle hshows hlookup) calls
  exact ⟨w, hrun⟩

def collision : List Record := [⟨[1, 36], [7]⟩, ⟨[0, 69], [8]⟩, ⟨[1, 36], []⟩]

theorem statsOf_collision : statsOf collision = ⟨3, 2128, 1, 6⟩ := by decide +kernel

theorem answers_make_collision :
    ∃ file summary v, make collision = .ok (file, summary) ∧ View.ofBytes file = .ok v ∧
      ∃ w, [.findNext, .find [1, 36], .stats, .records 2, .findNext, .findNext, .findStart [0, 69],
        .dump, .findNext, .findNext].mapM Call.run v =
          .ok [.value none, .value (some [7]), .stats ⟨3, 2128, 1, 6⟩,
            .records [.ok ⟨[1, 36], [7]⟩, .ok ⟨[0, 69], [8]⟩], .value (some []), .value none,
            .started, .dump (Dump.encode collision) (.ok 3), .value (some [8]), .value none] w := by
  have hmake : make collision = .ok (image collision, ⟨3, size collision⟩) :=
    make_of_lt (by decide)
  obtain ⟨v, hopen, hcalls⟩ := answers_make collision _ _ hmake
  refine ⟨_, _, v, hmake, hopen, ?_⟩
  obtain ⟨w, hw⟩ := hcalls [.findNext, .find [1, 36], .stats, .records 2, .findNext, .findNext,
    .findStart [0, 69], .dump, .findNext, .findNext]
  refine ⟨w, ?_⟩
  rw [← statsOf_collision]
  exact hw

end Concordance.Proofs.Lookups
