import Concordance.Proofs.Containment

namespace Concordance.Proofs.StoreSafety

open BlockStore Positioned Cursors Outcomes Guards GuardedViews StoreImage StoreReading Containment

variable {p : Tape} {v w : View}

def storedRef (file : Bytes) (pos : Nat) : TableRef :=
  ⟨(storedU32 file pos).toNat, (storedU32 file (pos + 4)).toNat⟩

def storedRefs (file : Bytes) (pos : Nat) : Nat → List TableRef
  | 0 => []
  | n + 1 => storedRef file pos :: storedRefs file (pos + slotSize) n

def Placed (length : Nat) (t : TableRef) : Prop := headerSize ≤ t.start ∧ t.stop ≤ length

theorem storedRef_stop_lt (file : Bytes) (pos : Nat) :
    (storedRef file pos).stop < UInt64.size := by
  have hstart : (storedRef file pos).start < UInt32.size := (storedU32 _ _).toNat_lt
  have hslots : (storedRef file pos).slots < UInt32.size := (storedU32 _ _).toNat_lt
  have hmax : UInt32.size * 16 < UInt64.size := by decide
  change (storedRef file pos).start + (storedRef file pos).slots * 8 < _
  omega

theorem readTables_fares {r : Reader} {base length pos n : Nat} (bucket : Nat) (hr : At p r pos)
    (hfirst : base ≤ pos) (hlast : pos + n * slotSize ≤ base + length)
    (hinside : base + length ≤ p.size) (hwide : base + length < UInt64.size) :
    Fares (readTables base length bucket n) r (fun ts r' => ts = storedRefs p.toBytes pos n ∧
      (∀ t ∈ ts, Placed length t) ∧ ∃ last, At p r' last)
      (fun e _ => IsFormat e ∧ ¬ ∀ t ∈ storedRefs p.toBytes pos n, Placed length t) := by
  induction n generalizing bucket r pos with
  | zero => exact fares_pure ⟨rfl, by simp, pos, hr⟩
  | succ n ih =>
      have hlast8 : pos + (n + 1) * 8 ≤ base + length := hlast
      have hnext : pos + 8 + n * slotSize ≤ base + length := by
        change pos + 8 + n * 8 ≤ _
        omega
      apply Fares.bind (pair_fares hr hfirst (by omega) hinside hwide)
      rintro ⟨start, slots⟩ t ⟨hpair, ht⟩
      obtain ⟨rfl, rfl⟩ := Prod.mk.inj hpair
      apply fares_fits64_bind (storedRef_stop_lt p.toBytes pos)
      apply fares_ite
      · intro hout
        refine fares_fail ⟨⟨_, rfl⟩, ?_⟩
        intro hplaced
        obtain ⟨hstart, hstop⟩ := hplaced _ List.mem_cons_self
        exact hout.elim (Nat.not_lt_of_le hstart) (Nat.not_lt_of_le hstop)
      · intro hin
        obtain ⟨hstart, hstop⟩ := not_or.mp hin
        have hplaced : Placed length (storedRef p.toBytes pos) :=
          ⟨Nat.le_of_not_lt hstart, Nat.le_of_not_lt hstop⟩
        apply Fares.bind ((ih (bucket + 1) ht (by omega) hnext).failing
          fun e u he => ⟨he.1, fun hall => he.2 fun x hx => hall x (List.mem_cons_of_mem _ hx)⟩)
        rintro rest u ⟨rfl, hrest, hu⟩
        refine fares_pure ⟨rfl, ?_, hu⟩
        exact List.forall_mem_cons.mpr ⟨hplaced, hrest⟩

theorem seekBase_fares {r : Reader} {old base : Nat} (hr : At p r old) (hbase : base < UInt64.size)
    {F : Error → Reader → Prop} : Fares (seekBase base) r (fun _ r' => At p r' base) F := by
  apply fares_fits64_bind hbase
  exact fares_bare_of_gives (hr.seek hbase) fun t ht => ht

theorem header_fares {r : Reader} {old base length : Nat} (hr : At p r old)
    (hlong : headerSize ≤ length) (hinside : base + length ≤ p.size)
    (hwide : base + length < UInt64.size) :
    Fares (do seekBase base; readTables base length 0 bucketCount) r
      (fun ts r => ts = storedRefs p.toBytes base bucketCount ∧
        (∀ t ∈ ts, Placed length t) ∧ ∃ last, At p r last)
      (fun e _ => IsFormat e ∧
        ¬ ∀ t ∈ storedRefs p.toBytes base bucketCount, Placed length t) := by
  have hheader : headerSize = bucketCount * slotSize := rfl
  apply Fares.bind (seekBase_fares hr (by omega))
  intro _ r hr
  exact readTables_fares 0 hr (Nat.le_refl _) (by omega) hinside hwide

/-- The header is whole, and its tables lie between it and the end of the store. -/
def Sound (file : Bytes) (base length : Nat) : Prop :=
  headerSize ≤ length ∧ ∀ t ∈ storedRefs file base bucketCount, Placed length t

structure Opened (p : Tape) (base length : Nat) (v : View) : Prop where
  contained : Contained p v
  tables : v.tables = storedRefs p.toBytes base bucketCount
  base : v.base = base
  length : v.length = length

theorem ofInput_contained {i : Input} {base length : Nat} (hi : Over p i)
    (hsmall : length < UInt32.size) (hinside : base + length ≤ p.size)
    (hwide : base + length < UInt64.size) :
    Agrees (GuardedViews.ofInput i base length) (View.ofInput i base length)
      (Opened p base length) (fun e => IsFormat e ∧ ¬ Sound p.toBytes base length) := by
  rw [GuardedViews.ofInput, View.ofInput]
  apply agrees_ite
  · intro hshort
    exact agrees_error ⟨⟨_, rfl⟩, fun hsound => Nat.not_lt_of_le hsound.1 hshort⟩
  intro hlong
  obtain ⟨j, hj, hover, hpos⟩ := hi.seek (n := 0) (by decide)
  have hat : At p (.ofInput j) 0 := ⟨hover, hpos, rfl⟩
  obtain ⟨hsame, ⟨ts, r, hrun, hts, hplaced, hr⟩ | ⟨e, r, hrun, he, hout⟩⟩ :=
    (header_fares hat (Nat.le_of_not_lt hlong) hinside hwide).eq_bare (mirrors_header base length)
  · simp only [hj, ok_bind, hsame, bare, hrun]
    exact agrees_ok ⟨⟨hr, hinside, hwide, hsmall, Nat.le_of_not_lt hlong, hplaced, by simp⟩, hts,
      rfl, rfl⟩
  · simp only [hj, ok_bind, hsame, bare, hrun]
    exact agrees_error ⟨he, fun hsound => hout hsound.2⟩

theorem openAt_agrees {file : Bytes} {base length : Nat} (hsmall : length < UInt32.size)
    (hinside : base + length ≤ file.length) (hwide : base + length < UInt64.size) :
    Agrees (GuardedViews.openAt file base length) (View.openAt file base length)
      (Opened (.ofBytes file) base length) (fun e => IsFormat e ∧ ¬ Sound file base length) := by
  rw [← Tape.size_ofBytes] at hinside
  have h := ofInput_contained (over_ofBytes file) hsmall hinside hwide
  rwa [Tape.toBytes_ofBytes] at h

theorem findNext_outcome (h : Contained p v) :
    (∃ found t, View.findNext v = .ok found t ∧ Kept p v t ∧
      ∀ value ∈ found, InData p.toBytes v value ∧ remaining t < remaining v) ∨
    ∃ e t, View.findNext v = .error e t ∧ Failed p v e t :=
  ((findNext_fares h).eq_bare mirrors_findNext).2

theorem recordAt_outcome (h : Contained p v) (hw : Moved p v w) (pos : Nat) :
    (∃ r t, View.recordAt pos w = .ok r t ∧ Moved p v t ∧ RecordIn p.toBytes v r ∧
      pos + lengthsSize + r.key.length + r.value.length ≤ v.dataEnd) ∨
    ∃ e t, View.recordAt pos w = .error e t ∧ Faulty p v e t :=
  ((recordAt_fares h hw pos).eq_bare (mirrors_recordAt pos)).2

/-- A search for all values has come to its end when it has read as many as slots remain. -/
theorem findRest_enough (h : Contained p v) {m n : Nat} (hm : remaining v < m)
    (hn : remaining v < n) : View.findRest m v = View.findRest n v := by
  induction m generalizing n v with
  | zero => exact absurd hm (Nat.not_lt_zero _)
  | succ m ih =>
      obtain ⟨n, rfl⟩ := Nat.exists_eq_succ_of_ne_zero (Nat.ne_of_gt (Nat.zero_lt_of_lt hn))
      rw [View.findRest, View.findRest]
      obtain ⟨found, t, hnext, ht, hfound⟩ | ⟨e, t, hnext, -⟩ := findNext_outcome h
      · rw [bind_of_ok hnext, bind_of_ok hnext]
        cases found with
        | none => rfl
        | some value =>
            have hless := (hfound value rfl).2
            exact bind_congr_at (ih ht.contained (by omega) (by omega)) _
      · rw [bind_of_error hnext, bind_of_error hnext]

theorem scan_at_end {pos : Nat} (h : v.dataEnd ≤ pos) (n : Nat) : v.scan n pos = ([], v) := by
  cases n with
  | zero => rfl
  | succ n => rw [View.scan, if_pos h]

theorem scan_enough (h : Contained p v) (hw : Moved p v w) {m n pos : Nat}
    (hm : v.dataEnd ≤ pos + m) (hn : v.dataEnd ≤ pos + n) : w.scan m pos = w.scan n pos := by
  induction m generalizing n pos w with
  | zero =>
      have hend : w.dataEnd ≤ pos := (h.kept hw).dataEnd.trans_le hm
      rw [scan_at_end hend, scan_at_end hend]
  | succ m ih =>
      have hend : w.dataEnd = v.dataEnd := (h.kept hw).dataEnd
      by_cases hpos : w.dataEnd ≤ pos
      · rw [scan_at_end hpos, scan_at_end hpos]
      · obtain ⟨n, rfl⟩ := Nat.exists_eq_succ_of_ne_zero (n := n) (by omega)
        rw [View.scan, View.scan, if_neg hpos, if_neg hpos]
        obtain ⟨r, t, hread, ht, -, -⟩ | ⟨e, t, hread, -⟩ := recordAt_outcome h hw pos
        · have hsize : lengthsSize = 8 := rfl
          have hnext : t.scan m (pos + lengthsSize + r.key.length + r.value.length) =
              t.scan n (pos + lengthsSize + r.key.length + r.value.length) :=
            ih ht (by omega) (by omega)
          rw [hread]
          simp only [hnext]
        · rw [hread]

inductive Call
  | findStart (key : Bytes)
  | findNext
  | find (key : Bytes)
  | findAll (key : Bytes)
  | records (n : Nat)
  | stats
  | dump

inductive Answer
  | started
  | value (found : Option Bytes)
  | values (found : List Bytes)
  | records (found : List (Except Error Record))
  | stats (counted : Stats)
  | dump (out : Bytes) (outcome : Except Error Nat)

namespace Call

def run : Call → Viewing Answer
  | findStart key => do
      modify (View.findStart · key)
      return .started
  | findNext => do return .value (← View.findNext)
  | find key => do return .value (← View.find key)
  | findAll key => do return .values (← View.findAll key)
  | records n => do return .records (← scanned n headerSize)
  | stats => do return .stats (← View.stats)
  | dump => do
      let (out, outcome) ← dumped
      return .dump out outcome

def guarded : Call → Guarded View Answer
  | findStart key => do
      GuardedViews.findStart key
      return .started
  | findNext => do return .value (← GuardedViews.findNext)
  | find key => do return .value (← GuardedViews.find key)
  | findAll key => do return .values (← GuardedViews.findAll key)
  | records n => do return .records (← scan n headerSize)
  | stats => do return .stats (← GuardedViews.stats)
  | dump => do
      let (out, outcome) ← GuardedViews.dump
      return .dump out outcome

def after (v : View) (call : Call) : View := stateOf (call.run v)

end Call

theorem mirrors_run (call : Call) : Mirrors call.guarded call.run := by
  cases call with
  | findStart key => exact (mirrors_findStart key).bind fun _ => mirrors_pure _
  | findNext => exact mirrors_findNext.bind fun _ => mirrors_pure _
  | find key => exact (mirrors_find key).bind fun _ => mirrors_pure _
  | findAll key => exact (mirrors_findAll key).bind fun _ => mirrors_pure _
  | records n => exact (mirrors_scan n headerSize).bind fun _ => mirrors_pure _
  | stats => exact mirrors_stats.bind fun _ => mirrors_pure _
  | dump => exact mirrors_dump.bind fun _ => mirrors_pure _

/-- The text of a dump is that of records from the data section. Only a whole dump is closed. -/
def Dumped (file : Bytes) (v : View) (out : Bytes) : Except Error Nat → Prop
  | .ok n => ∃ rs : List Record, (∀ r ∈ rs, RecordIn file v r) ∧ rs.length = n ∧
      out = Dump.encode rs
  | .error e => IsFormat e ∧ ∃ rs : List Record, (∀ r ∈ rs, RecordIn file v r) ∧
      out = rs.flatMap Dump.encodeRecord

/-- What a call may answer: nothing but pieces of the data section, of which a search for all values
of a key finds no more than the table of the key has slots. -/
def Allowed (file : Bytes) (v : View) : Call → Answer → Prop
  | .findStart _, .started => True
  | .findNext, .value found => ∀ value ∈ found, InData file v value
  | .find _, .value found => ∀ value ∈ found, InData file v value
  | .findAll key, .values found =>
      found.length ≤ (v.tableOf (KeyHash.hash key)).slots ∧ ∀ value ∈ found, InData file v value
  | .records n, .records found => found.length ≤ n ∧ ∀ x ∈ found, Listed file v x
  | .stats, .stats counted => counted.bytes = v.length
  | .dump, .dump out outcome => Dumped file v out outcome
  | _, _ => False

theorem allRecords_fares (h : Contained p v) {F : Error → View → Prop} :
    Fares allRecords v (fun found t => Moved p v t ∧ ∀ x ∈ found, Listed p.toBytes v x) F := by
  apply fares_get_bind
  apply (scan_fares h h.movedSelf _ _).mono
  · exact fun found t ht => ⟨ht.1, ht.2.2⟩
  · exact fun e t ht => ht

def recordText : Except Error Record → Bytes
  | .ok r => Dump.encodeRecord r
  | .error _ => []

theorem listed_records {file : Bytes} {found : List (Except Error Record)}
    (h : ∀ x ∈ found, Listed file v x) :
    ∃ rs : List Record, (∀ r ∈ rs, RecordIn file v r) ∧
      found.flatMap recordText = rs.flatMap Dump.encodeRecord ∧
      (found.mapM id = .ok rs ∨ ∃ e, found.mapM id = .error e ∧ IsFormat e) := by
  induction found with
  | nil => exact ⟨[], by simp, rfl, .inl rfl⟩
  | cons x found ih =>
      obtain ⟨hx, hfound⟩ := List.forall_mem_cons.mp h
      obtain ⟨rs, hrs, htext, hmap⟩ := ih hfound
      rw [List.mapM_cons, List.flatMap_cons, htext]
      cases x with
      | error e => exact ⟨rs, hrs, rfl, .inr ⟨e, rfl, hx⟩⟩
      | ok r =>
          refine ⟨r :: rs, List.forall_mem_cons.mpr ⟨hx, hrs⟩, rfl, ?_⟩
          obtain hmap | ⟨e, hmap, he⟩ := hmap
          · rw [hmap]
            exact .inl rfl
          · rw [hmap]
            exact .inr ⟨e, rfl, he⟩

theorem stats_fares (h : Contained p v) :
    Fares stats v (fun counted t => Kept p v t ∧ counted.bytes = v.length) (Failed p v) := by
  apply fares_get_bind
  apply Fares.bind (allRecords_fares h)
  rintro found t ⟨ht, hfound⟩
  obtain ⟨rs, -, -, hmap | ⟨e, hmap, he⟩⟩ := listed_records hfound
  · rw [hmap]
    exact fares_pure ⟨h.kept ht, rfl⟩
  · rw [hmap]
    exact fares_fail ⟨he, h.kept ht⟩

theorem dump_fares (h : Contained p v) :
    Fares dump v (fun x t => Kept p v t ∧ Dumped p.toBytes v x.1 x.2) (Failed p v) := by
  apply Fares.bind (allRecords_fares h)
  rintro found t ⟨ht, hfound⟩
  obtain ⟨rs, hrs, htext, hmap⟩ := listed_records hfound
  dsimp only
  obtain hmap | ⟨e, hmap, he⟩ := hmap
  · rw [hmap]
    exact fares_pure ⟨h.kept ht, rs, hrs, rfl, congrArg (· ++ [Dump.newline]) htext⟩
  · rw [hmap]
    exact fares_pure ⟨h.kept ht, he, rs, hrs, htext⟩

theorem guarded_fares (h : Contained p v) (call : Call) :
    Fares call.guarded v (fun answer t => Kept p v t ∧ Allowed p.toBytes v call answer)
      (Failed p v) := by
  cases call with
  | findStart key =>
      apply Fares.bind (findStart_fares h key)
      rintro _ t rfl
      exact fares_pure ⟨kept_findStart h key, trivial⟩
  | findNext =>
      apply Fares.bind (findNext_fares h)
      rintro found t ⟨ht, hfound⟩
      exact fares_pure ⟨ht, fun value hvalue => (hfound value hvalue).1⟩
  | find key =>
      apply Fares.bind (find_fares h key)
      exact fun found t ht => fares_pure ht
  | findAll key =>
      apply Fares.bind (findAll_fares h key)
      exact fun values t ht => fares_pure ht
  | records n =>
      apply Fares.bind (scan_fares h h.movedSelf n headerSize)
      exact fun found t ht => fares_pure ⟨h.kept ht.1, ht.2⟩
  | stats =>
      apply Fares.bind (stats_fares h)
      exact fun counted t ht => fares_pure ht
  | dump =>
      apply Fares.bind (dump_fares h)
      exact fun x t ht => fares_pure ht

theorem kept_after (h : Contained p v) (call : Call) : Kept p v (call.after v) := by
  obtain ⟨-, ⟨answer, t, hrun, ht, -⟩ | ⟨e, t, hrun, -, ht⟩⟩ :=
    (guarded_fares h call).eq_bare (mirrors_run call)
  · rw [Call.after, hrun]
    exact ht
  · rw [Call.after, hrun]
    exact ht

theorem kept_afterAll (h : Contained p v) (calls : List Call) :
    Kept p v (calls.foldl Call.after v) := by
  induction calls generalizing v with
  | nil => exact h.keptSelf
  | cons call calls ih =>
      have hnext := kept_after h call
      exact hnext.trans (ih hnext.contained)

/-- What a call may answer does not depend on the reader and the search of the view. -/
theorem allowed_of_kept (h : Kept p v w) {file : Bytes} {call : Call} {answer : Answer}
    (ha : Allowed file w call answer) : Allowed file v call answer := by
  obtain ⟨r, base, length, tables, lookup⟩ := v
  obtain ⟨r', base', length', tables', lookup'⟩ := w
  obtain ⟨-, hbase, hlength, htables⟩ := h
  dsimp only at hbase hlength htables
  subst hbase hlength htables
  cases call <;> cases answer <;> exact ha

theorem findAll_enough (h : Contained p v) (key : Bytes) {n : Nat}
    (hn : (v.tableOf (KeyHash.hash key)).slots < n) :
    View.findRest n (v.findStart key) = View.findAll key v := by
  rw [← remaining_findStart] at hn
  exact findRest_enough (kept_findStart h key).contained hn (Nat.lt_succ_self _)

theorem records_enough (h : Contained p v) {n : Nat} (hn : v.dataEnd ≤ n) :
    v.records n = v.allRecords :=
  scan_enough h h.movedSelf (by omega) (by omega)

/-- Whatever bytes a file has, a view of any part of it that ends before 2^64 opens or finds a fault
of the format. Each call, after any calls, gives pieces of the data section or finds such a fault. No
guard stops it, and a search or an iteration with more fuel would come to the same end. -/
theorem openAt_contained (file : Bytes) (base length : Nat) (hsmall : length < UInt32.size)
    (hinside : base + length ≤ file.length) (hwide : base + length < UInt64.size) :
    GuardedViews.openAt file base length = (View.openAt file base length).mapError .failed ∧
      ((∃ e, View.openAt file base length = .error e ∧ IsFormat e) ∨
        ∃ v, View.openAt file base length = .ok v ∧ v.base = base ∧ v.length = length ∧
          v.tables = storedRefs file base bucketCount ∧
          ∀ calls : List Call, ∀ w, w = calls.foldl Call.after v →
            (∀ call, call.guarded w = bare call.run w ∧
              ((∃ answer t, call.run w = .ok answer t ∧ Allowed file v call answer) ∨
                ∃ e t, call.run w = .error e t ∧ IsFormat e)) ∧
            (∀ key n, (v.tableOf (KeyHash.hash key)).slots < n →
              View.findRest n (w.findStart key) = View.findAll key w) ∧
            ∀ n, v.dataEnd ≤ n → w.records n = w.allRecords) := by
  obtain ⟨hguarded, ⟨v, hopen, hcontained, htables, hbase, hlength⟩ | ⟨e, hopen, he, -⟩⟩ :=
    openAt_agrees hsmall hinside hwide
  · rw [Tape.toBytes_ofBytes] at htables
    refine ⟨hguarded, .inr ⟨v, hopen, hbase, hlength, htables, ?_⟩⟩
    rintro calls w rfl
    have hkept := kept_afterAll hcontained calls
    refine ⟨?_, ?_, ?_⟩
    · intro call
      obtain ⟨hsame, hcases⟩ := (guarded_fares hkept.contained call).eq_bare (mirrors_run call)
      rw [Tape.toBytes_ofBytes] at hcases
      refine ⟨hsame, hcases.imp ?_ ?_⟩
      · rintro ⟨answer, t, hrun, -, hallowed⟩
        exact ⟨answer, t, hrun, allowed_of_kept hkept hallowed⟩
      · rintro ⟨e, t, hrun, he, -⟩
        exact ⟨e, t, hrun, he⟩
    · intro key n hn
      rw [← hkept.tableOf] at hn
      exact findAll_enough hkept.contained key hn
    · intro n hn
      rw [← hkept.dataEnd] at hn
      exact records_enough hkept.contained hn
  · exact ⟨hguarded, .inl ⟨e, hopen, he⟩⟩

theorem storedU32_of_lies {file : Bytes} {pos : Nat} {m : UInt32}
    (h : Lies file pos (LittleEndian.u32 m)) : storedU32 file pos = m := by
  have hslice : file.slice pos 4 = LittleEndian.u32 m := h.slice_eq
  rw [storedU32, hslice, LittleEndian.toU32_u32]

theorem storedRefs_of_lies {file : Bytes} {pos : Nat} {ts : List TableRef}
    (h : Lies file pos (ts.flatMap refImage))
    (hts : ∀ t ∈ ts, t.start < UInt32.size ∧ t.slots < UInt32.size) :
    storedRefs file pos ts.length = ts := by
  induction ts generalizing pos with
  | nil => rfl
  | cons t ts ih =>
      obtain ⟨⟨hstart, hslots⟩, hts⟩ := List.forall_mem_cons.mp hts
      rw [List.flatMap_cons] at h
      have hrest : Lies file (pos + slotSize) (ts.flatMap refImage) := h.right
      have hsecond : storedU32 file (pos + 4) = UInt32.ofNat t.slots :=
        storedU32_of_lies h.left.right
      have hfirst : storedRef file pos = t := by
        rw [storedRef, storedU32_of_lies h.left.left, hsecond,
          UInt32.toNat_ofNat_of_lt' hstart, UInt32.toNat_ofNat_of_lt' hslots]
      rw [List.length_cons, storedRefs, hfirst, ih hrest hts]

theorem sound_of_lies {file : Bytes} {base length : Nat} {ts : List TableRef}
    (h : Lies file base (ts.flatMap refImage)) (hcount : ts.length = bucketCount)
    (hheader : headerSize ≤ length) (hsmall : length < UInt32.size)
    (hts : ∀ t ∈ ts, Placed length t) : Sound file base length := by
  have hrefs : storedRefs file base ts.length = ts := by
    apply storedRefs_of_lies h
    intro t ht
    have hstop : t.start + t.slots * 8 ≤ length := (hts t ht).2
    omega
  refine ⟨hheader, ?_⟩
  rwa [← hcount, hrefs]

theorem openAt_of_sound {file : Bytes} {base length : Nat} (hsmall : length < UInt32.size)
    (hinside : base + length ≤ file.length) (hwide : base + length < UInt64.size)
    (h : Sound file base length) : ∃ v, View.openAt file base length = .ok v := by
  obtain ⟨-, ⟨v, hopen, -⟩ | ⟨e, -, -, hunsound⟩⟩ := openAt_agrees hsmall hinside hwide
  · exact ⟨v, hopen⟩
  · exact absurd h hunsound

def sharedRefs : List TableRef := List.replicate bucketCount ⟨headerSize, 1⟩

/-- All buckets have the same table. Its one slot is taken, by a record that would lie in the
header. -/
def fullTable : Bytes := sharedRefs.flatMap refImage ++ slotImage ⟨1, 5⟩

theorem length_fullTable : fullTable.length = 2056 := by
  rw [fullTable, List.length_append, length_flatMap_refImage, sharedRefs, List.length_replicate]
  rfl

theorem sound_fullTable {file : Bytes} {base : Nat} (h : Lies file base fullTable) :
    Sound file base 2056 := by
  apply sound_of_lies h.left List.length_replicate (by decide) (by decide)
  intro t ht
  rw [List.eq_of_mem_replicate ht]
  exact ⟨by decide, by decide⟩

theorem openAt_contained_fullTable : ∃ v, View.openAt fullTable 0 2056 = .ok v ∧
    ∀ key, (∃ values t, View.findAll key v = .ok values t ∧ values.length ≤ 1) ∨
      ∃ e t, View.findAll key v = .error e t ∧ IsFormat e := by
  have hlength := length_fullTable
  obtain ⟨v, hopen⟩ := openAt_of_sound (by decide) (by omega) (by decide)
    (sound_fullTable (lies_self fullTable))
  obtain ⟨-, ⟨e, herror, -⟩ | ⟨u, hu, -, -, htables, hafter⟩⟩ :=
    openAt_contained fullTable 0 2056 (by decide) (by omega) (by decide)
  · rw [hopen] at herror
    cases herror
  · refine ⟨u, hu, ?_⟩
    intro key
    obtain ⟨hcalls, -⟩ := hafter [] u rfl
    obtain ⟨-, hcase⟩ := hcalls (.findAll key)
    have hrefs : storedRefs fullTable 0 bucketCount = sharedRefs := by
      have h := storedRefs_of_lies (lies_append_left (sharedRefs.flatMap refImage)
        (slotImage ⟨1, 5⟩)) (by
          intro t ht
          rw [List.eq_of_mem_replicate ht]
          decide)
      rwa [sharedRefs, List.length_replicate] at h
    have hslots : (u.tableOf (KeyHash.hash key)).slots = 1 := by
      have hb : bucketOf (KeyHash.hash key) < bucketCount := Nat.mod_lt _ (by decide)
      rw [View.tableOf, htables, hrefs, sharedRefs, List.getD_eq_getElem?_getD,
        List.getElem?_replicate, if_pos hb, Option.getD_some]
    cases hall : View.findAll key u with
    | ok values t =>
        have hrun : Call.run (.findAll key) u = .ok (.values values) t := bind_of_ok hall _
        rw [hrun] at hcase
        obtain ⟨_, _, ⟨⟩, hallowed⟩ | ⟨_, _, ⟨⟩, -⟩ := hcase
        exact .inl ⟨values, t, rfl, hslots ▸ hallowed.1⟩
    | error e t =>
        have hrun : Call.run (.findAll key) u = .error e t := bind_of_error hall _
        rw [hrun] at hcase
        obtain ⟨_, _, ⟨⟩, -⟩ | ⟨_, _, ⟨⟩, he⟩ := hcase
        exact .inr ⟨e, t, rfl, he⟩

end Concordance.Proofs.StoreSafety
