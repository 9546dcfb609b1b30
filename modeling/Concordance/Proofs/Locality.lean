import Concordance.Proofs.Lockstep
import Concordance.Proofs.StoreSafety

namespace Concordance.Proofs.Locality

open BlockStore Positioned Cursors Outcomes Guards GuardedViews StoreReading Containment StoreSafety
  Lockstep

variable {p q : Tape} {base base' length : Nat} {r r' : Reader} {v w : View} {α : Type}

/-- Windows of two tapes that hold the same bytes. -/
structure SameWindow (p : Tape) (base : Nat) (q : Tape) (base' length : Nat) : Prop where
  left : base + length ≤ p.size
  right : base' + length ≤ q.size
  bytes : p.toBytes.slice base length = q.toBytes.slice base' length

theorem SameWindow.slice_eq (h : SameWindow p base q base' length) {pos n : Nat}
    (hn : pos + n ≤ length) :
    p.toBytes.slice (base + pos) n = q.toBytes.slice (base' + pos) n := by
  have hpart : ∀ (b : Bytes) (first : Nat),
      b.slice (first + pos) n = ((b.slice first length).drop pos).take n := by
    intro b first
    rw [drop_slice, take_slice, Nat.min_eq_left (by omega)]
  rw [hpart, h.bytes, ← hpart]

def Beside (p : Tape) (base : Nat) (q : Tape) (base' : Nat) (r r' : Reader) : Prop :=
  ∃ pos, At p r (base + pos) ∧ At q r' (base' + pos)

theorem take_inStep (h : SameWindow p base q base' length) (hr : Beside p base q base' r r')
    (n : Nat) : InStep (Beside p base q base') r r' (take base (base + length) n)
      (take base' (base' + length) n) := by
  obtain ⟨pos, hr, hr'⟩ := hr
  apply inStep_get_bind
  rw [hr.cursor, hr'.cursor]
  apply inStep_inside_bind
  rintro ⟨-, hlast⟩ ⟨-, hlast'⟩
  have hleft := h.left
  have hright := h.right
  have htake := hr.take (n := n) (by omega)
  rw [h.slice_eq (by omega)] at htake
  have hread : InStep (Beside p base q base') r r' (bare (Reader.take n)) (bare (Reader.take n)) := by
    apply inStep_bare htake (hr'.take (by omega))
    intro s t hs ht
    rw [Nat.add_assoc] at hs ht
    exact ⟨pos + n, hs, ht⟩
  apply hread.bind
  intro b s t hst
  exact inStep_fits64_bind fun _ _ => inStep_pure hst b

theorem u32_inStep (h : SameWindow p base q base' length) (hr : Beside p base q base' r r') :
    InStep (Beside p base q base') r r' (u32 base (base + length)) (u32 base' (base' + length)) :=
  (take_inStep h hr 4).bind fun _ _ _ hst => inStep_pure hst _

theorem pair_inStep (h : SameWindow p base q base' length) (hr : Beside p base q base' r r') :
    InStep (Beside p base q base') r r' (pair base (base + length))
      (pair base' (base' + length)) := by
  apply (u32_inStep h hr).bind
  intro m s t hst
  apply (u32_inStep h hst).bind
  intro n s t hst
  exact inStep_pure hst (m, n)

theorem readTables_inStep (h : SameWindow p base q base' length) (hr : Beside p base q base' r r')
    (bucket n : Nat) : InStep (Beside p base q base') r r' (readTables base length bucket n)
      (readTables base' length bucket n) := by
  induction n generalizing bucket r r' with
  | zero => exact inStep_pure hr []
  | succ n ih =>
      apply (pair_inStep h hr).bind
      rintro ⟨start, slots⟩ s t hst
      apply inStep_fits64_bind
      intro _ _
      apply InStep.ite (inStep_fail hst _)
      apply (ih hst (bucket + 1)).bind
      intro rest s t hst
      exact inStep_pure hst _

theorem header_inStep (h : SameWindow p base q base' length) {old old' : Nat} (hr : At p r old)
    (hr' : At q r' old') : InStep (Beside p base q base') r r'
      (do seekBase base; readTables base length 0 bucketCount)
      (do seekBase base'; readTables base' length 0 bucketCount) := by
  have hseek : InStep (Beside p base q base') r r' (seekBase base) (seekBase base') := by
    apply inStep_fits64_bind
    intro hbase hbase'
    exact inStep_bare (hr.seek hbase) (hr'.seek hbase') fun s t hs ht => ⟨0, hs, ht⟩
  apply hseek.bind
  intro _ s t hst
  exact readTables_inStep h hst 0 bucketCount

/-- Two views over windows with the same bytes, in the same state but for their bases. -/
structure Twins (p q : Tape) (v w : View) : Prop where
  window : SameWindow p v.base q w.base v.length
  length : w.length = v.length
  tables : w.tables = v.tables
  lookup : w.lookup = v.lookup
  reader : Beside p v.base q w.base v.reader w.reader

theorem Twins.dataEnd (h : Twins p q v w) : w.dataEnd = v.dataEnd := by
  rw [View.dataEnd, View.dataEnd, h.tables]

theorem Twins.tableOf (h : Twins p q v w) (hash : UInt32) : w.tableOf hash = v.tableOf hash := by
  rw [View.tableOf, View.tableOf, h.tables]

theorem Twins.withReader (h : Twins p q v w) (hr : Beside p v.base q w.base r r') :
    Twins p q { v with reader := r } { w with reader := r' } :=
  ⟨h.window, h.length, h.tables, h.lookup, hr⟩

theorem Twins.withLookup (h : Twins p q v w) (l : Option Lookup) :
    Twins p q { v with lookup := l } { w with lookup := l } :=
  ⟨h.window, h.length, h.tables, rfl, h.reader⟩

theorem Twins.findStart (h : Twins p q v w) (key : Bytes) :
    Twins p q (v.findStart key) (w.findStart key) := by
  have hlookup : (w.findStart key).lookup = (v.findStart key).lookup := by
    simp only [View.findStart, h.tableOf]
  exact ⟨h.window, h.length, h.tables, hlookup, h.reader⟩

/-- An action on the reader that is in step within any two windows with the same bytes. -/
theorem onReader_inStep (h : Twins p q v w) {g : Nat → Nat → Guarded Reader α}
    (hg : ∀ {base base' length r r'}, SameWindow p base q base' length →
      Beside p base q base' r r' →
        InStep (Beside p base q base') r r' (g base (base + length)) (g base' (base' + length))) :
    InStep (Twins p q) v w (onReader g) (onReader g) := by
  apply inStep_get_bind
  rw [h.length]
  exact (hg h.window h.reader).focus fun s t hst => h.withReader hst

theorem seek_inStep (h : Twins p q v w) (pos : Nat) :
    InStep (Twins p q) v w (seek pos) (seek pos) := by
  have hseek : ∀ {p : Tape} {v : View} {old : Nat}, At p v.reader old →
      v.base + pos < UInt64.size →
        Gives (View.seek pos) v () (Reread v (At p · (v.base + pos))) := by
    intro p v old hr hpos
    apply Gives.bind (m := get) ⟨v, rfl, rfl⟩
    rintro t rfl
    exact onReader_spec (P := (At p · old)) ⟨_, rfl, hr⟩ fun r hr => hr.seek hpos
  obtain ⟨old, hr, hr'⟩ := h.reader
  apply inStep_get_bind
  apply inStep_fits64_bind
  intro hpos hpos'
  apply inStep_bare (hseek hr hpos) (hseek hr' hpos')
  rintro s t ⟨r, rfl, hr⟩ ⟨r', rfl, hr'⟩
  exact h.withReader ⟨pos, hr, hr'⟩

theorem recordLengths_inStep (h : Twins p q v w) (pos : Nat) :
    InStep (Twins p q) v w (recordLengths pos) (recordLengths pos) := by
  apply inStep_get_bind
  rw [h.dataEnd]
  apply inStep_fits64_bind
  intro _ _
  apply InStep.ite (inStep_fail h _)
  apply (seek_inStep h pos).bind
  intro _ s t hst
  apply (onReader_inStep hst pair_inStep).bind
  rintro ⟨key, value⟩ s t hst
  apply inStep_fits64_bind
  intro _ _
  exact InStep.ite (inStep_fail hst _) (inStep_pure hst _)

theorem matchesAhead_inStep (h : Twins p q v w) (key : Bytes) :
    InStep (Twins p q) v w (matchesAhead key) (matchesAhead key) := by
  induction hn : key.length using Nat.strongRecOn generalizing key v w with
  | _ n ih =>
      rw [matchesAhead]
      by_cases hk : key = []
      · rw [if_pos hk]
        exact inStep_pure h true
      · have hpos : 0 < key.length := List.length_pos_iff.mpr hk
        rw [if_neg hk]
        apply (onReader_inStep h fun hsame hr => take_inStep hsame hr _).bind
        intro stored s t hst
        exact InStep.ite (ih _ (by simp; omega) hst _ rfl) (inStep_pure hst false)

theorem holdsKey_inStep (h : Twins p q v w) (pos : Nat) (key : Bytes) :
    InStep (Twins p q) v w (holdsKey pos key) (holdsKey pos key) :=
  (seek_inStep h _).bind fun _ _ _ hst => matchesAhead_inStep hst key

theorem search_inStep (h : Twins p q v w) (n : Nat) (c : Lookup) :
    InStep (Twins p q) v w (search n c) (search n c) := by
  induction n generalizing c v w with
  | zero => exact inStep_pure h (c, none)
  | succ n ih =>
      apply (seek_inStep h c.slot).bind
      intro _ s t hst
      apply (onReader_inStep hst pair_inStep).bind
      rintro ⟨hash, pos⟩ s t hst
      apply InStep.ite (inStep_pure hst _)
      apply inStep_fits32_bind
      apply inStep_fits32_bind
      refine InStep.ite ?_ (ih hst c.advance)
      apply (recordLengths_inStep hst pos.toNat).bind
      rintro ⟨key, value⟩ s t hst
      refine InStep.ite ?_ (ih hst c.advance)
      apply (holdsKey_inStep hst pos.toNat c.key).bind
      intro held s t hst
      exact InStep.ite (inStep_fits64_bind fun _ _ => inStep_pure hst _) (ih hst c.advance)

theorem findStart_inStep (h : Twins p q v w) (key : Bytes) :
    InStep (Twins p q) v w (GuardedViews.findStart key) (GuardedViews.findStart key) := by
  have hmodify : InStep (Twins p q) v w (modify (View.findStart · key))
      (modify (View.findStart · key)) := inStep_modify (h.findStart key)
  apply inStep_get_bind
  dsimp only
  rw [h.tableOf]
  exact InStep.ite hmodify (inStep_fits32_bind hmodify)

theorem findNext_inStep (h : Twins p q v w) :
    InStep (Twins p q) v w GuardedViews.findNext GuardedViews.findNext := by
  apply inStep_get_bind
  rw [h.lookup]
  cases v.lookup with
  | none => exact inStep_pure h none
  | some c =>
      apply inStep_modify_bind
      apply inStep_fits32_bind
      apply (search_inStep (h.withLookup none) _ c).bind
      rintro ⟨c', found⟩ s t hst
      apply inStep_modify_bind
      have hnext := hst.withLookup (some c')
      cases found with
      | none => exact inStep_pure hnext none
      | some place =>
          obtain ⟨pos, n⟩ := place
          apply (seek_inStep hnext pos).bind
          intro _ s t hst
          apply (onReader_inStep hst fun hsame hr => take_inStep hsame hr n).bind
          intro value s t hst
          exact inStep_pure hst (some value)

theorem find_inStep (h : Twins p q v w) (key : Bytes) :
    InStep (Twins p q) v w (GuardedViews.find key) (GuardedViews.find key) :=
  (findStart_inStep h key).bind fun _ _ _ hst => findNext_inStep hst

theorem findRest_inStep (h : Twins p q v w) (n : Nat) :
    InStep (Twins p q) v w (findRest n) (findRest n) := by
  induction n generalizing v w with
  | zero => exact inStep_pure h []
  | succ n ih =>
      apply (findNext_inStep h).bind
      intro found s t hst
      cases found with
      | none => exact inStep_pure hst []
      | some value => exact (ih hst).bind fun rest _ _ hst => inStep_pure hst (value :: rest)

theorem findAll_inStep (h : Twins p q v w) (key : Bytes) :
    InStep (Twins p q) v w (GuardedViews.findAll key) (GuardedViews.findAll key) := by
  apply (findStart_inStep h key).bind
  intro _ s t hst
  apply inStep_get_bind
  rw [hst.tableOf]
  exact findRest_inStep hst _

theorem recordAt_inStep (h : Twins p q v w) (pos : Nat) :
    InStep (Twins p q) v w (recordAt pos) (recordAt pos) := by
  apply InStep.ite (inStep_fail h _)
  apply (recordLengths_inStep h pos).bind
  rintro ⟨key, value⟩ s t hst
  apply (onReader_inStep hst fun hsame hr => take_inStep hsame hr key).bind
  intro k s t hst
  apply (onReader_inStep hst fun hsame hr => take_inStep hsame hr value).bind
  intro x s t hst
  exact inStep_pure hst _

theorem scan_inStep (h : Twins p q v w) (n pos : Nat) :
    InStep (Twins p q) v w (scan n pos) (scan n pos) := by
  induction n generalizing pos v w with
  | zero => exact inStep_pure h []
  | succ n ih =>
      apply inStep_get_bind
      rw [h.dataEnd]
      apply InStep.ite (inStep_pure h [])
      apply (recordAt_inStep h pos).attempt.bind
      intro found s t hst
      cases found with
      | error e => exact inStep_pure hst [Except.error e]
      | ok r =>
          apply inStep_fits64_bind
          intro _ _
          exact (ih hst _).bind fun rest _ _ hst => inStep_pure hst (Except.ok r :: rest)

theorem allRecords_inStep (h : Twins p q v w) :
    InStep (Twins p q) v w allRecords allRecords := by
  apply inStep_get_bind
  rw [h.dataEnd]
  exact scan_inStep h _ _

theorem stats_inStep (h : Twins p q v w) :
    InStep (Twins p q) v w GuardedViews.stats GuardedViews.stats := by
  apply inStep_get_bind
  rw [h.length, h.tables]
  apply (allRecords_inStep h).bind
  intro found s t hst
  cases found.mapM id with
  | ok rs => exact inStep_pure hst _
  | error e => exact inStep_fail hst e

theorem dump_inStep (h : Twins p q v w) :
    InStep (Twins p q) v w GuardedViews.dump GuardedViews.dump := by
  apply (allRecords_inStep h).bind
  intro found s t hst
  cases found.mapM id with
  | ok rs => exact inStep_pure hst _
  | error e => exact inStep_pure hst _

theorem guarded_inStep (h : Twins p q v w) (call : Call) :
    InStep (Twins p q) v w call.guarded call.guarded := by
  cases call with
  | findStart key => exact (findStart_inStep h key).bind fun _ _ _ hst => inStep_pure hst _
  | findNext => exact (findNext_inStep h).bind fun _ _ _ hst => inStep_pure hst _
  | find key => exact (find_inStep h key).bind fun _ _ _ hst => inStep_pure hst _
  | findAll key => exact (findAll_inStep h key).bind fun _ _ _ hst => inStep_pure hst _
  | records n => exact (scan_inStep h n headerSize).bind fun _ _ _ hst => inStep_pure hst _
  | stats => exact (stats_inStep h).bind fun _ _ _ hst => inStep_pure hst _
  | dump => exact (dump_inStep h).bind fun _ _ _ hst => inStep_pure hst _

theorem run_alike (h : Twins p q v w) (hv : Contained p v) (hw : Contained q w) (call : Call) :
    Alike (Twins p q) (call.run v) (call.run w) :=
  (guarded_inStep h call).alike ((guarded_fares hv call).eq_bare (mirrors_run call)).1
    ((guarded_fares hw call).eq_bare (mirrors_run call)).1

/-- What calls give, one after the other. A call that fails does not keep the next ones from being
made. -/
def answers (v : View) : List Call → List (Except Error Answer)
  | [] => []
  | call :: calls => outcomeOf (call.run v) :: answers (call.after v) calls

theorem answers_eq (h : Twins p q v w) (hv : Contained p v) (hw : Contained q w)
    (calls : List Call) : answers v calls = answers w calls := by
  induction calls generalizing v w with
  | nil => rfl
  | cons call calls ih =>
      obtain ⟨houtcome, hafter⟩ := (run_alike h hv hw call).outcome_eq
      have hrest : answers (call.after v) calls = answers (call.after w) calls :=
        ih hafter (kept_after hv call).contained (kept_after hw call).contained
      rw [answers, answers, houtcome, hrest]

theorem contained_of_ofInput {i : Input} (hi : Over p i) (hsmall : length < UInt32.size)
    (hinside : base + length ≤ p.size) (hwide : base + length < UInt64.size)
    (hopen : View.ofInput i base length = .ok v) : Contained p v := by
  obtain ⟨-, ⟨u, hu, hopened⟩ | ⟨e, he, -⟩⟩ := ofInput_contained hi hsmall hinside hwide
  · rw [hopen] at hu
    cases hu
    exact hopened.contained
  · rw [hopen] at he
    cases he

theorem ofInput_of_seek {i j : Input} (base : Nat) (hlong : headerSize ≤ length)
    (hseek : i.seek (.start 0) = .ok j) : View.ofInput i base length =
      match (do Reader.seek base; View.readTables length 0 bucketCount : Reading _)
          (.ofInput j) with
      | .ok tables reader => .ok ⟨reader, base, length, tables, none⟩
      | .error e _ => .error e := by
  rw [View.ofInput, if_neg (Nat.not_lt_of_le hlong)]
  simp only [hseek, ok_bind]
  rfl

theorem ofInput_twins {i j : Input} (hi : Over p i) (hj : Over q j)
    (h : SameWindow p base q base' length) (hsmall : length < UInt32.size)
    (hwide : base + length < UInt64.size) (hwide' : base' + length < UInt64.size) :
    (∃ e, View.ofInput i base length = .error e ∧ View.ofInput j base' length = .error e) ∨
      ∃ v w, View.ofInput i base length = .ok v ∧ View.ofInput j base' length = .ok w ∧
        Twins p q v w ∧ Contained p v ∧ Contained q w := by
  by_cases hshort : length < headerSize
  · refine .inl ⟨.format (.storeTruncated length), ?_, ?_⟩
    · rw [View.ofInput, if_pos hshort]
      rfl
    · rw [View.ofInput, if_pos hshort]
      rfl
  have hlong := Nat.le_of_not_lt hshort
  obtain ⟨i', hseek, hover, hpos⟩ := hi.seek (n := 0) (by decide)
  obtain ⟨j', hseek', hover', hpos'⟩ := hj.seek (n := 0) (by decide)
  have hat : At p (.ofInput i') 0 := ⟨hover, hpos, rfl⟩
  have hat' : At q (.ofInput j') 0 := ⟨hover', hpos', rfl⟩
  have halike := (header_inStep h hat hat').alike
    ((header_fares hat hlong h.left hwide).eq_bare (mirrors_header base length)).1
    ((header_fares hat' hlong h.right hwide').eq_bare (mirrors_header base' length)).1
  have hopen := ofInput_of_seek base hlong hseek
  have hopen' := ofInput_of_seek base' hlong hseek'
  obtain ⟨ts, r, r', hx, hy, hbeside⟩ | ⟨e, r, r', hx, hy, -⟩ := halike.cases
  · rw [hx] at hopen
    rw [hy] at hopen'
    exact .inr ⟨_, _, hopen, hopen', ⟨h, rfl, rfl, rfl, hbeside⟩,
      contained_of_ofInput hi hsmall h.left hwide hopen,
      contained_of_ofInput hj hsmall h.right hwide' hopen'⟩
  · rw [hx] at hopen
    rw [hy] at hopen'
    exact .inl ⟨e, hopen, hopen'⟩

theorem sameWindow_append (before s behind : Bytes) :
    SameWindow (.ofBytes (before ++ s ++ behind)) before.length (.ofBytes s) 0 s.length where
  left := by
    rw [Tape.size_ofBytes, List.length_append, List.length_append]
    omega
  right := by rw [Tape.size_ofBytes, Nat.zero_add]
  bytes := by
    rw [Tape.toBytes_ofBytes, Tape.toBytes_ofBytes]
    simp [Bytes.slice]

/-- A store that lies within a file opens exactly if its bytes alone do, with the same error if they
do not. Then any calls, one after the other, give the same on both, failures included: neither what
lies before the store nor what lies behind it makes a difference. -/
theorem openAt_local (before s behind : Bytes) (hsmall : s.length < UInt32.size)
    (hwide : before.length + s.length < UInt64.size) :
    (∃ e, View.openAt (before ++ s ++ behind) before.length s.length = .error e ∧
      View.ofBytes s = .error e) ∨
    ∃ v w, View.openAt (before ++ s ++ behind) before.length s.length = .ok v ∧
      View.ofBytes s = .ok w ∧ ∀ calls, answers v calls = answers w calls := by
  have hwhole : 0 + s.length < UInt64.size := by omega
  obtain ⟨e, he, he'⟩ | ⟨v, w, hv, hw, htwins, hleft, hright⟩ :=
    ofInput_twins (over_ofBytes (before ++ s ++ behind)) (over_ofBytes s)
      (sameWindow_append before s behind) hsmall hwide hwhole
  · exact .inl ⟨e, he, he'⟩
  · exact .inr ⟨v, w, hv, hw, answers_eq htwins hleft hright⟩

theorem openAt_local_fullTable : ∃ v w,
    View.openAt ([7] ++ fullTable ++ [9]) 1 2056 = .ok v ∧ View.ofBytes fullTable = .ok w ∧
      ∀ calls, answers v calls = answers w calls := by
  have hlength := length_fullTable
  have hsmall : fullTable.length < UInt32.size := by
    rw [hlength]
    decide
  have hwide : ([7] : Bytes).length + fullTable.length < UInt64.size := by
    rw [hlength]
    decide
  obtain ⟨e, -, he⟩ | ⟨v, w, hv, hw, hcalls⟩ := openAt_local [7] fullTable [9] hsmall hwide
  · obtain ⟨u, hu⟩ := openAt_of_sound (by decide) (by omega) (by decide)
      (sound_fullTable (lies_self fullTable))
    rw [View.ofBytes, hlength, hu] at he
    cases he
  · rw [hlength] at hv
    exact ⟨v, w, hv, hw, hcalls⟩

end Concordance.Proofs.Locality
