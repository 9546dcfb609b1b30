import Concordance.BlockStore.Dump
import Concordance.Proofs.Guards

namespace Concordance.Proofs.GuardedViews

open BlockStore Positioned Guards

def take (first stop n : Nat) : Guarded Reader Bytes := do
  let r ← get
  inside first stop r.input.position n
  let b ← bare (Reader.take n)
  fits64 (r.position + n)
  return b

def u32 (first stop : Nat) : Guarded Reader UInt32 := do
  return LittleEndian.toU32 (← take first stop 4)

def pair (first stop : Nat) : Guarded Reader (UInt32 × UInt32) := do
  let m ← u32 first stop
  let n ← u32 first stop
  return (m, n)

def readTables (base length : Nat) : Nat → Nat → Guarded Reader (List TableRef)
  | _, 0 => return []
  | bucket, n + 1 => do
      let (start, slots) ← pair base (base + length)
      let t : TableRef := ⟨start.toNat, slots.toNat⟩
      fits64 t.stop
      if t.start < headerSize ∨ length < t.stop then
        fail (.format (.tableOutside bucket t.start t.stop))
      else
        let rest ← readTables base length (bucket + 1) n
        return t :: rest

def seekBase (base : Nat) : Guarded Reader Unit := do
  fits64 base
  bare (Reader.seek base)

def ofInput (i : Input) (base length : Nat) : Except Stop View :=
  if length < headerSize then .error (.failed (.format (.storeTruncated length)))
  else match i.seek (.start 0) with
    | .error e => .error (.failed e)
    | .ok i =>
        match (do seekBase base; readTables base length 0 bucketCount : Guarded Reader _)
            (.ofInput i) with
        | .ok tables reader => .ok ⟨reader, base, length, tables, none⟩
        | .error stop _ => .error stop

def openAt (file : Bytes) (base length : Nat) : Except Stop View :=
  ofInput (.ofBytes file) base length

variable {α : Type}

def onReader (g : Nat → Nat → Guarded Reader α) : Guarded View α := do
  let v ← get
  focus View.reader (fun v r => { v with reader := r }) (g v.base (v.base + v.length))

def seek (pos : Nat) : Guarded View Unit := do
  let v ← get
  fits64 (v.base + pos)
  bare (View.seek pos)

def recordLengths (pos : Nat) : Guarded View (Nat × Nat) := do
  let v ← get
  fits64 (pos + lengthsSize)
  if pos < headerSize ∨ v.dataEnd < pos + lengthsSize then fail (.format (.recordOutside pos))
  else
    seek pos
    let (key, value) ← onReader pair
    fits64 (pos + lengthsSize + key.toNat + value.toNat)
    if v.dataEnd < pos + lengthsSize + key.toNat + value.toNat then
      fail (.format (.recordTruncated pos))
    else return (key.toNat, value.toNat)

def matchesAhead (key : Bytes) : Guarded View Bool :=
  if key = [] then return true
  else do
    let stored ← onReader (take · · (min key.length 64))
    if stored = key.take 64 then matchesAhead (key.drop 64) else return false
termination_by key.length
decreasing_by
  rename_i h _
  have := List.length_pos_iff.2 h
  simp
  omega

def holdsKey (pos : Nat) (key : Bytes) : Guarded View Bool := do
  seek (pos + lengthsSize)
  matchesAhead key

def search : Nat → Lookup → Guarded View (Lookup × Option (Nat × Nat))
  | 0, c => return (c, none)
  | n + 1, c => do
      seek c.slot
      let (hash, pos) ← onReader pair
      if pos = 0 then return ({ c with probes := c.table.slots }, none)
      else
        fits32 (c.probes + 1)
        fits32 (c.slot + slotSize)
        if hash = c.hash then
          let (key, value) ← recordLengths pos.toNat
          if key = c.key.length then
            if ← holdsKey pos.toNat c.key then
              fits64 (pos.toNat + lengthsSize + key)
              return (c.advance, some (pos.toNat + lengthsSize + key, value))
            else search n c.advance
          else search n c.advance
        else search n c.advance

def findStart (key : Bytes) : Guarded View Unit := do
  let v ← get
  let hash := KeyHash.hash key
  let t := v.tableOf hash
  if t.slots = 0 then modify (View.findStart · key)
  else
    fits32 (t.start + firstSlot hash t.slots * slotSize)
    modify (View.findStart · key)

def findNext : Guarded View (Option Bytes) := do
  let v ← get
  match v.lookup with
  | none => return none
  | some c =>
      modify fun v => { v with lookup := none }
      fits32 c.table.stop
      let (c, found) ← search (c.table.slots - c.probes) c
      modify fun v => { v with lookup := some c }
      match found with
      | none => return none
      | some (pos, length) =>
          seek pos
          return some (← onReader (take · · length))

def find (key : Bytes) : Guarded View (Option Bytes) := do
  findStart key
  findNext

def findRest : Nat → Guarded View (List Bytes)
  | 0 => return []
  | n + 1 => do
      match ← findNext with
      | none => return []
      | some value => return value :: (← findRest n)

def findAll (key : Bytes) : Guarded View (List Bytes) := do
  findStart key
  let v ← get
  findRest ((v.tableOf (KeyHash.hash key)).slots + 1)

def recordAt (pos : Nat) : Guarded View Record := do
  if UInt32.size ≤ pos then fail (.format .recordUnaddressable)
  else
    let (key, value) ← recordLengths pos
    return ⟨← onReader (take · · key), ← onReader (take · · value)⟩

def scan : Nat → Nat → Guarded View (List (Except Error Record))
  | 0, _ => return []
  | n + 1, pos => do
      let v ← get
      if v.dataEnd ≤ pos then return []
      else
        match ← attemptGuarded (recordAt pos) with
        | .error e => return [.error e]
        | .ok r =>
            fits64 (pos + lengthsSize + r.key.length + r.value.length)
            let rest ← scan n (pos + lengthsSize + r.key.length + r.value.length)
            return .ok r :: rest

def allRecords : Guarded View (List (Except Error Record)) := do
  let v ← get
  scan v.dataEnd headerSize

def stats : Guarded View Stats := do
  let v ← get
  let found ← allRecords
  match found.mapM id with
  | .ok rs => return ⟨rs.length, v.length, v.tables.countP (0 < ·.slots),
      v.tables.foldl (fun n t => max n t.slots) 0⟩
  | .error e => fail e

def dump : Guarded View (Bytes × Except Error Nat) := do
  let found ← allRecords
  let out := found.flatMap fun
    | .ok r => Dump.encodeRecord r
    | .error _ => []
  match found.mapM id with
  | .ok rs => return (out ++ [Dump.newline], .ok rs.length)
  | .error e => return (out, .error e)

theorem mirrors_take (first stop n : Nat) : Mirrors (take first stop n) (Reader.take n) := by
  have hpure : Reader.take n = (get >>= fun _ => Reader.take n >>= pure) := by
    funext r
    change _ = (Reader.take n >>= pure) r
    rw [bind_pure]
  rw [hpure]
  apply mirrors_get.bind
  intro r
  apply Mirrors.inside
  apply (mirrors_bare _).bind
  intro b
  exact (mirrors_pure b).fits64 _

theorem mirrors_u32 (first stop : Nat) : Mirrors (u32 first stop) Reader.u32 := by
  have hbind : Reader.u32 = (do return LittleEndian.toU32 (← Reader.take 4)) := rfl
  rw [hbind]
  exact (mirrors_take first stop 4).bind fun b => mirrors_pure _

theorem mirrors_pair (first stop : Nat) : Mirrors (pair first stop) Reader.pair := by
  apply (mirrors_u32 first stop).bind
  intro m
  apply (mirrors_u32 first stop).bind
  intro n
  exact mirrors_pure (m, n)

theorem mirrors_readTables (base length bucket n : Nat) :
    Mirrors (readTables base length bucket n) (View.readTables length bucket n) := by
  induction n generalizing bucket with
  | zero => exact mirrors_pure []
  | succ n ih =>
      apply (mirrors_pair base (base + length)).bind
      rintro ⟨start, slots⟩
      apply Mirrors.fits64
      apply Mirrors.ite (mirrors_fail_bind _ _)
      exact (ih (bucket + 1)).bind fun rest => mirrors_pure _

theorem mirrors_header (base length : Nat) :
    Mirrors (do seekBase base; readTables base length 0 bucketCount)
      (do Reader.seek base; View.readTables length 0 bucketCount) :=
  Mirrors.bind ((mirrors_bare _).fits64 base) fun _ => mirrors_readTables base length 0 bucketCount

theorem mirrors_onReader {g : Nat → Nat → Guarded Reader α} {m : Reading α}
    (h : ∀ first stop, Mirrors (g first stop) m) : Mirrors (onReader g) (View.onReader m) := by
  have hfocus : View.onReader m =
      (get >>= fun _ => focus View.reader (fun v r => { v with reader := r }) m) := by
    funext v
    rw [Outcomes.get_bind, View.onReader, focus]
    cases m v.reader <;> rfl
  rw [hfocus]
  exact mirrors_get.bind fun v => (h _ _).focus _ _

theorem mirrors_seek (pos : Nat) : Mirrors (seek pos) (View.seek pos) := by
  have hget : View.seek pos = (do let _ ← get; View.seek pos) := rfl
  rw [hget]
  exact mirrors_get.bind fun v => (mirrors_bare _).fits64 _

theorem mirrors_recordLengths (pos : Nat) :
    Mirrors (recordLengths pos) (View.recordLengths pos) := by
  apply mirrors_get.bind
  intro v
  apply Mirrors.fits64
  apply Mirrors.ite (mirrors_fail_bind _ _)
  apply (mirrors_seek pos).bind
  intro _
  apply (mirrors_onReader mirrors_pair).bind
  rintro ⟨key, value⟩
  apply Mirrors.fits64
  exact Mirrors.ite (mirrors_fail_bind _ _) (mirrors_pure _)

theorem mirrors_matchesAhead (key : Bytes) :
    Mirrors (matchesAhead key) (View.matchesAhead key) := by
  induction hn : key.length using Nat.strongRecOn generalizing key with
  | _ n ih =>
      rw [matchesAhead, View.matchesAhead]
      by_cases hk : key = []
      · rw [if_pos hk, if_pos hk]
        exact mirrors_pure true
      · have hpos : 0 < key.length := List.length_pos_iff.mpr hk
        rw [if_neg hk, if_neg hk]
        apply (mirrors_onReader fun first stop => mirrors_take first stop _).bind
        intro stored
        exact Mirrors.ite (ih _ (by simp; omega) _ rfl) (mirrors_pure false)

theorem mirrors_holdsKey (pos : Nat) (key : Bytes) :
    Mirrors (holdsKey pos key) (View.holdsKey pos key) :=
  (mirrors_seek _).bind fun _ => mirrors_matchesAhead key

theorem mirrors_search (n : Nat) (c : Lookup) : Mirrors (search n c) (View.search n c) := by
  induction n generalizing c with
  | zero => exact mirrors_pure (c, none)
  | succ n ih =>
      apply (mirrors_seek c.slot).bind
      intro _
      apply (mirrors_onReader mirrors_pair).bind
      rintro ⟨hash, pos⟩
      apply Mirrors.ite (mirrors_pure _)
      apply Mirrors.fits32
      apply Mirrors.fits32
      refine Mirrors.ite ?_ (ih c.advance)
      apply (mirrors_recordLengths pos.toNat).bind
      rintro ⟨key, value⟩
      refine Mirrors.ite ?_ (ih c.advance)
      apply (mirrors_holdsKey pos.toNat c.key).bind
      intro held
      exact Mirrors.ite ((mirrors_pure _).fits64 _) (ih c.advance)

theorem mirrors_findStart (key : Bytes) :
    Mirrors (findStart key) (modify (View.findStart · key)) := by
  have hget : (modify (View.findStart · key) : Viewing PUnit) =
      (get >>= fun _ => modify (View.findStart · key)) := rfl
  rw [hget]
  apply mirrors_get.bind
  intro v
  dsimp only
  split
  · exact mirrors_modify _
  · exact (mirrors_modify _).fits32 _

theorem mirrors_findNext : Mirrors findNext View.findNext := by
  apply mirrors_get.bind
  intro v
  cases v.lookup with
  | none => exact mirrors_pure none
  | some c =>
      apply (mirrors_modify _).bind
      intro _
      apply Mirrors.fits32
      apply (mirrors_search _ c).bind
      rintro ⟨c', found⟩
      apply (mirrors_modify _).bind
      intro _
      cases found with
      | none => exact mirrors_pure none
      | some place =>
          obtain ⟨pos, length⟩ := place
          apply (mirrors_seek pos).bind
          intro _
          apply (mirrors_onReader fun first stop => mirrors_take first stop length).bind
          intro value
          exact mirrors_pure (some value)

theorem mirrors_find (key : Bytes) : Mirrors (find key) (View.find key) :=
  (mirrors_findStart key).bind fun _ => mirrors_findNext

theorem mirrors_findRest (n : Nat) : Mirrors (findRest n) (View.findRest n) := by
  induction n with
  | zero => exact mirrors_pure []
  | succ n ih =>
      apply mirrors_findNext.bind
      intro found
      cases found with
      | none => exact mirrors_pure []
      | some value => exact ih.bind fun rest => mirrors_pure (value :: rest)

theorem mirrors_findAll (key : Bytes) : Mirrors (findAll key) (View.findAll key) := by
  apply (mirrors_findStart key).bind
  intro _
  exact mirrors_get.bind fun v => mirrors_findRest _

theorem mirrors_recordAt (pos : Nat) : Mirrors (recordAt pos) (View.recordAt pos) := by
  apply Mirrors.ite (mirrors_fail_bind _ _)
  apply (mirrors_recordLengths pos).bind
  rintro ⟨key, value⟩
  apply (mirrors_onReader fun first stop => mirrors_take first stop key).bind
  intro k
  apply (mirrors_onReader fun first stop => mirrors_take first stop value).bind
  intro x
  exact mirrors_pure _

def scanned (n pos : Nat) : Viewing (List (Except Error Record)) := fun v =>
  .ok (v.scan n pos).1 (v.scan n pos).2

theorem scanned_succ (n pos : Nat) : scanned (n + 1) pos = (do
    let v ← get
    if v.dataEnd ≤ pos then return []
    else
      match ← attempt (View.recordAt pos) with
      | .error e => return [.error e]
      | .ok r =>
          let rest ← scanned n (pos + lengthsSize + r.key.length + r.value.length)
          return .ok r :: rest) := by
  funext v
  rw [Outcomes.get_bind, scanned, View.scan]
  by_cases hend : v.dataEnd ≤ pos
  · rw [if_pos hend, if_pos hend]
    rfl
  · rw [if_neg hend, if_neg hend]
    cases hr : View.recordAt pos v with
    | ok r w =>
        have ha : attempt (View.recordAt pos) v = .ok (.ok r) w := by rw [attempt, hr]
        rw [Outcomes.bind_of_ok ha]
        rfl
    | error e w =>
        have ha : attempt (View.recordAt pos) v = .ok (.error e) w := by rw [attempt, hr]
        rw [Outcomes.bind_of_ok ha]
        rfl

theorem mirrors_scan (n pos : Nat) : Mirrors (scan n pos) (scanned n pos) := by
  induction n generalizing pos with
  | zero => exact mirrors_pure []
  | succ n ih =>
      rw [scanned_succ]
      apply mirrors_get.bind
      intro v
      apply Mirrors.ite (mirrors_pure [])
      apply (mirrors_recordAt pos).attempt.bind
      intro found
      cases found with
      | error e => exact mirrors_pure [Except.error e]
      | ok r =>
          apply Mirrors.fits64
          exact (ih _).bind fun rest => mirrors_pure (Except.ok r :: rest)

def listed : Viewing (List (Except Error Record)) := fun v => .ok v.allRecords.1 v.allRecords.2

theorem listed_apply (v : View) : listed v = .ok v.allRecords.1 v.allRecords.2 := rfl

theorem mirrors_allRecords : Mirrors allRecords listed := by
  have hlisted : listed = (get >>= fun v => scanned v.dataEnd headerSize) := rfl
  rw [hlisted]
  exact mirrors_get.bind fun v => mirrors_scan v.dataEnd headerSize

theorem mirrors_stats : Mirrors stats View.stats := by
  have hstats : View.stats = (do
      let v ← get
      let found ← listed
      match found.mapM id with
      | .ok rs => return ⟨rs.length, v.length, v.tables.countP (0 < ·.slots),
          v.tables.foldl (fun n t => max n t.slots) 0⟩
      | .error e => throw e) := by
    funext v
    rw [Outcomes.get_bind, Outcomes.bind_of_ok (listed_apply v), View.stats]
    generalize v.allRecords = found
    obtain ⟨found, w⟩ := found
    dsimp only
    cases found.mapM id <;> rfl
  rw [hstats]
  apply mirrors_get.bind
  intro v
  apply mirrors_allRecords.bind
  intro found
  cases found.mapM id with
  | ok rs => exact mirrors_pure _
  | error e => exact mirrors_fail e

def dumped : Viewing (Bytes × Except Error Nat) := fun v => .ok (v.dump.1, v.dump.2.1) v.dump.2.2

theorem mirrors_dump : Mirrors dump dumped := by
  have hdump : dumped = (do
      let found ← listed
      let out := found.flatMap fun
        | .ok r => Dump.encodeRecord r
        | .error _ => []
      match found.mapM id with
      | .ok rs => return (out ++ [Dump.newline], .ok rs.length)
      | .error e => return (out, .error e)) := by
    funext v
    rw [Outcomes.bind_of_ok (listed_apply v), dumped, View.dump]
    generalize v.allRecords = found
    obtain ⟨found, w⟩ := found
    dsimp only
    cases found.mapM id <;> rfl
  rw [hdump]
  apply mirrors_allRecords.bind
  intro found
  cases found.mapM id with
  | ok rs => exact mirrors_pure _
  | error e => exact mirrors_pure _

end Concordance.Proofs.GuardedViews
