import Concordance.Proofs.Cursors

namespace Concordance.Proofs.Accounts

open Positioned Outcomes Cursors

inductive Value
  | u32 (n : UInt32)
  | u64 (n : UInt64)
  | pair (m n : UInt32)
  | raw (b : Bytes)

def Value.bytes : Value → Bytes
  | .u32 n => LittleEndian.u32 n
  | .u64 n => LittleEndian.u64 n
  | .pair m n => LittleEndian.u32 m ++ LittleEndian.u32 n
  | .raw b => b

inductive Fetch
  | u32
  | u64
  | pair
  | raw (n : Nat)

def Fetch.width : Fetch → Nat
  | .u32 => 4
  | .u64 => 8
  | .pair => 8
  | .raw n => n

def Fetch.run : Fetch → Reading Value
  | .u32 => .u32 <$> Reader.u32
  | .u64 => .u64 <$> Reader.u64
  | .pair => (fun x => .pair x.1 x.2) <$> Reader.pair
  | .raw n => .raw <$> Reader.take n

def Fetch.succeeds (f : Fetch) (r : Reader) : Bool :=
  match f.run r with
  | .ok _ _ => true
  | .error _ _ => false

inductive Call
  | fetch (f : Fetch)
  | seek (pos : UInt64)

def Call.after (r : Reader) : Call → Reader
  | .fetch f => stateOf (f.run r)
  | .seek pos => stateOf (Reader.seek pos.toNat r)

/-- Whether a read has failed since the last seek that moved the cursor, given whether one had
before. -/
def astray (lost : Bool) (r : Reader) : List Call → Bool
  | [] => lost
  | .fetch f :: calls => astray (lost || !f.succeeds r) ((Call.fetch f).after r) calls
  | .seek pos :: calls =>
      astray (lost && pos.toNat = r.position) ((Call.seek pos).after r) calls

def rewound (i : Input) : Except Error Reader := Reader.ofInput <$> i.seek (.start 0)

def cursorAt (b : Bytes) (pos : Nat) : Input := .snapshot ⟨.ofBytes b, pos⟩

theorem rewound_cursorAt (b : Bytes) (pos : Nat) :
    rewound (cursorAt b pos) = .ok (Reader.ofBytes b) := by
  rfl

section

variable {α β : Type} {p : Tape} {r : Reader} {width : Nat} {m : Reading α} {bytes : α → Bytes}

/-- A read gives the bytes at the cursor and takes the cursor and the account behind them. Where
there are not as many it fails, with the cursor at the end or, if it was there, behind it. -/
def Fetches (p : Tape) (r : Reader) (width : Nat) (bytes : α → Bytes) (m : Reading α) : Prop :=
  if width ≤ p.size - r.input.position then
    ∃ a t, m r = .ok a t ∧ bytes a = p.toBytes.slice r.input.position width ∧ Over p t.input ∧
      t.input.position = r.input.position + width ∧ t.position = r.position + width
  else ∃ e t, m r = .error e t ∧ Over p t.input ∧ p.size ≤ t.input.position

theorem fetches_take (h : Over p r.input) (n : Nat) : Fetches p r n id (Reader.take n) := by
  obtain ⟨j, hread, hover, hpos⟩ := h.readExact n
  rw [Fetches]
  split
  · rename_i hfits
    rw [if_pos hfits] at hread
    refine ⟨p.toBytes.slice r.input.position n, ⟨j, r.position + n⟩, ?_, rfl, hover, ?_, rfl⟩
    · rw [Reader.take, hread]
    · dsimp only
      omega
  · rename_i hshort
    rw [if_neg hshort] at hread
    refine ⟨.io .shortRead, { r with input := j }, ?_, hover, ?_⟩
    · rw [Reader.take, hread]
    · dsimp only
      omega

theorem Fetches.map (h : Fetches p r width bytes m) (f : α → β) {bytes' : β → Bytes}
    (hbytes : ∀ a, (bytes a).length = width → bytes' (f a) = bytes a) :
    Fetches p r width bytes' (f <$> m) := by
  have hmap : (f <$> m) r = EStateM.map f m r := rfl
  rw [Fetches] at h ⊢
  rw [hmap, EStateM.map]
  split
  · rename_i hfits
    rw [if_pos hfits] at h
    obtain ⟨a, t, hread, hslice, hrest⟩ := h
    have hlength : (bytes a).length = width := by
      rw [hslice, length_slice, Tape.length_toBytes]
      omega
    rw [hread]
    exact ⟨f a, t, rfl, (hbytes a hlength).trans hslice, hrest⟩
  · rename_i hshort
    rw [if_neg hshort] at h
    obtain ⟨e, t, hread, hrest⟩ := h
    rw [hread]
    exact ⟨e, t, rfl, hrest⟩

theorem fetches_u32 (h : Over p r.input) : Fetches p r 4 LittleEndian.u32 Reader.u32 :=
  (fetches_take h 4).map _ fun _ hlength => LittleEndian.u32_toU32 hlength

theorem fetches_u64 (h : Over p r.input) : Fetches p r 8 LittleEndian.u64 Reader.u64 :=
  (fetches_take h 8).map _ fun _ hlength => LittleEndian.u64_toU64 hlength

theorem fetches_pair (h : Over p r.input) :
    Fetches p r 8 (fun x => LittleEndian.u32 x.1 ++ LittleEndian.u32 x.2) Reader.pair := by
  have hfirst := fetches_u32 h
  rw [Fetches] at hfirst ⊢
  by_cases hhalf : 4 ≤ p.size - r.input.position
  · rw [if_pos hhalf] at hfirst
    obtain ⟨a, t, hread, hslice, hover, hcursor, haccount⟩ := hfirst
    have hsecond := fetches_u32 hover
    rw [Fetches, hcursor, haccount] at hsecond
    split
    · rename_i hfits
      rw [if_pos (by omega)] at hsecond
      obtain ⟨b, u, hread', hslice', hover', hcursor', haccount'⟩ := hsecond
      refine ⟨(a, b), u, ?_, ?_, hover', hcursor', haccount'⟩
      · rw [Reader.pair, bind_of_ok hread, bind_of_ok hread']
        rfl
      · rw [hslice, hslice', ← slice_add]
    · rename_i hshort
      rw [if_neg (by omega)] at hsecond
      obtain ⟨e, u, hread', hover', hend⟩ := hsecond
      refine ⟨e, u, ?_, hover', hend⟩
      rw [Reader.pair, bind_of_ok hread, bind_of_error hread']
  · rw [if_neg hhalf] at hfirst
    obtain ⟨e, t, hread, hover, hend⟩ := hfirst
    rw [if_neg (by omega)]
    exact ⟨e, t, by rw [Reader.pair, bind_of_error hread], hover, hend⟩

theorem Fetch.fetches (f : Fetch) (h : Over p r.input) :
    Fetches p r f.width Value.bytes f.run := by
  cases f with
  | u32 => exact (fetches_u32 h).map _ fun _ _ => rfl
  | u64 => exact (fetches_u64 h).map _ fun _ _ => rfl
  | pair => exact (fetches_pair h).map _ fun _ _ => rfl
  | raw n => exact (fetches_take h n).map _ fun _ _ => rfl

/-- The cursor stands where the account says, unless it is astray; then nothing lies ahead of it. -/
structure Stands (p : Tape) (lost : Bool) (r : Reader) : Prop where
  tape : Over p r.input
  account : lost = false → r.input.position = r.position
  ahead : lost = true → p.size ≤ r.input.position

theorem stands_ofBytes (b : Bytes) : Stands (.ofBytes b) false (Reader.ofBytes b) :=
  ⟨over_ofBytes b, fun _ => rfl, fun hlost => absurd hlost (by decide)⟩

variable {lost : Bool}

theorem Stands.fetch (h : Stands p lost r) (f : Fetch) :
    Stands p (lost || !f.succeeds r) ((Call.fetch f).after r) := by
  have hfetch := f.fetches h.tape
  rw [Fetches] at hfetch
  rw [Call.after, Fetch.succeeds]
  split at hfetch
  · obtain ⟨a, t, hread, -, hover, hcursor, haccount⟩ := hfetch
    rw [hread]
    simp only [Bool.not_true, Bool.or_false]
    refine ⟨hover, fun hlost => ?_, fun hlost => ?_⟩
    · rw [stateOf, hcursor, haccount, h.account hlost]
    · have hahead := h.ahead hlost
      rw [stateOf, hcursor]
      omega
  · obtain ⟨e, t, hread, hover, hend⟩ := hfetch
    rw [hread]
    simp only [Bool.not_false, Bool.or_true]
    exact ⟨hover, fun hlost => absurd hlost (by decide), fun _ => hend⟩

theorem Stands.seek (h : Stands p lost r) (pos : UInt64) :
    Gives (Reader.seek pos.toNat) r () fun t =>
      t.position = pos.toNat ∧ Stands p (lost && pos.toNat = r.position) t := by
  by_cases hsame : pos.toNat = r.position
  · refine ⟨r, by rw [Reader.seek, if_pos hsame], hsame.symm, ?_⟩
    simpa [hsame] using h
  · obtain ⟨j, hj, hover, hpos⟩ := h.tape.seek pos.toNat_lt
    refine ⟨⟨j, pos.toNat⟩, by simp [Reader.seek, hsame, hj], rfl, ?_⟩
    simp only [hsame, decide_false, Bool.and_false]
    exact ⟨hover, fun _ => hpos, fun hlost => absurd hlost (by decide)⟩

theorem Stands.afterAll (h : Stands p lost r) (calls : List Call) :
    Stands p (astray lost r calls) (calls.foldl Call.after r) := by
  induction calls generalizing lost r with
  | nil => exact h
  | cons call calls ih =>
      cases call with
      | fetch f => exact ih (h.fetch f)
      | seek pos => exact ih (h.seek pos).leaves.2

theorem not_ok_of_error {e : Error} {t : Reader} (h : m r = .error e t) :
    ¬∃ a u, m r = .ok a u := by
  rintro ⟨a, u, hok⟩
  rw [h] at hok
  cases hok

theorem Stands.succeeds_iff (h : Stands p lost r) {f : Fetch} (hwidth : 1 ≤ f.width) :
    (∃ v t, f.run r = .ok v t) ↔ r.position + f.width ≤ p.size ∧ lost = false := by
  have hfetch := f.fetches h.tape
  rw [Fetches] at hfetch
  cases lost with
  | false =>
      have haccount := h.account rfl
      split at hfetch
      · obtain ⟨v, t, hread, -⟩ := hfetch
        exact ⟨fun _ => ⟨by omega, rfl⟩, fun _ => ⟨v, t, hread⟩⟩
      · obtain ⟨e, t, hread, -⟩ := hfetch
        exact iff_of_false (not_ok_of_error hread) (by omega)
  | true =>
      have hahead := h.ahead rfl
      rw [if_neg (by omega)] at hfetch
      obtain ⟨e, t, hread, -⟩ := hfetch
      exact iff_of_false (not_ok_of_error hread) (by simp)

theorem Stands.bytes_eq (h : Stands p false r) {f : Fetch} {v : Value} {t : Reader}
    (hread : f.run r = .ok v t) : v.bytes = p.toBytes.slice r.position f.width := by
  have hfetch := f.fetches h.tape
  rw [Fetches, h.account rfl, hread] at hfetch
  split at hfetch
  · obtain ⟨a, u, hok, hslice, -⟩ := hfetch
    obtain ⟨rfl, rfl⟩ := EStateM.Result.ok.inj hok
    exact hslice
  · obtain ⟨e, u, herror, -⟩ := hfetch
    cases herror

end

/-- Whatever was asked of a reader before, with or without success, a seek succeeds. A read of some
bytes right behind it succeeds exactly if the bytes are there, and gives them, unless the account
stood at their place and a read has failed since the last seek to another place; then it fails. -/
theorem fetch_after_seek (b : Bytes) (start : Nat) (calls : List Call) (pos : UInt64) {f : Fetch}
    (hwidth : 1 ≤ f.width) : ∃ r₀ r s, rewound (cursorAt b start) = .ok r₀ ∧
      calls.foldl Call.after r₀ = r ∧ Reader.seek pos.toNat r = .ok () s ∧
      ((∃ v t, f.run s = .ok v t) ↔ pos.toNat + f.width ≤ b.length ∧
        ¬(astray false r₀ calls = true ∧ pos.toNat = r.position)) ∧
      ∀ v t, f.run s = .ok v t → v.bytes = b.slice pos.toNat f.width := by
  have hstands := (stands_ofBytes b).afterAll calls
  obtain ⟨s, hseek, hpos, hs⟩ := hstands.seek pos
  have hiff := hs.succeeds_iff hwidth
  rw [hpos, Tape.size_ofBytes] at hiff
  refine ⟨_, _, s, rewound_cursorAt b start, rfl, hseek, ?_, ?_⟩
  · rw [hiff]
    simp
  · intro v t hread
    rw [(hiff.mp ⟨v, t, hread⟩).2] at hs
    rw [hs.bytes_eq hread, hpos, Tape.toBytes_ofBytes]

theorem fetch_after_seek_detour : 1 ≤ Fetch.u32.width ∧ ∃ r₀ r s v t,
    rewound (cursorAt [1, 0, 0, 0] 9) = .ok r₀ ∧
      [.fetch (.raw 5), .seek 1].foldl Call.after r₀ = r ∧ Reader.seek 0 r = .ok () s ∧
      Fetch.u32.run s = .ok v t ∧ v.bytes = [1, 0, 0, 0] := by
  obtain ⟨r₀, r, s, hopen, hr, hseek, hiff, hbytes⟩ :=
    fetch_after_seek [1, 0, 0, 0] 9 [.fetch (.raw 5), .seek 1] 0 (f := .u32) (by decide)
  obtain rfl : r₀ = Reader.ofBytes [1, 0, 0, 0] := (Except.ok.inj hopen).symm
  have hfound : astray false (Reader.ofBytes [1, 0, 0, 0]) [.fetch (.raw 5), .seek 1] = false := rfl
  obtain ⟨v, t, hread⟩ := hiff.mpr ⟨by decide, fun h => by simp [hfound] at h⟩
  exact ⟨by decide, _, r, s, v, t, hopen, hr, hseek, hread, hbytes v t hread⟩

/-- Two bytes that are there are not read although a seek to them has succeeded: a read before it
was too long, and had begun at their place. -/
theorem fetch_after_seek_lost : ∃ r₀ r s e e' t,
    rewound (cursorAt [1, 2] 0) = .ok r₀ ∧ Fetch.u32.run r₀ = .error e r ∧
      Reader.seek 0 r = .ok () s ∧ 0 + (Fetch.raw 2).width ≤ [1, 2].length ∧
      (Fetch.raw 2).run s = .error e' t :=
  ⟨_, _, _, _, _, _, rfl, rfl, rfl, by decide, rfl⟩

end Concordance.Proofs.Accounts
