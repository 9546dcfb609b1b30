import Concordance.Proofs.Calls

namespace Concordance.Proofs.InputKinds

open Outcomes Places Frames Cursors Calls

/-- What handles of a kind can do. Of a failure nothing is told but that it is one. -/
structure Device (κ : Type) where
  read : Nat → κ → Option Bytes × κ
  readExact : Nat → κ → Option Bytes × κ
  seek : Seek → κ → Option κ
  clone : κ → κ
  position : κ → Nat

inductive Act
  | read (n : Nat)
  | readExact (n : Nat)
  | seek (goal : Seek)
  | clone
  deriving DecidableEq

structure Step where
  handle : Nat
  act : Act
  deriving DecidableEq

namespace Device

variable {κ : Type} (d : Device κ)

def act (k : κ) : Act → Option Bytes × κ
  | .read n => d.read n k
  | .readExact n => d.readExact n k
  | .seek goal =>
      match d.seek goal k with
      | some k => (some [], k)
      | none => (none, k)
  | .clone => (some [], k)

def opened (k : κ) : Act → List κ
  | .clone => [d.clone k]
  | _ => []

def perform (handles : List κ) (s : Step) : Option Bytes × List κ :=
  match handles[s.handle]? with
  | none => (none, handles)
  | some k =>
      ((d.act k s.act).1, handles.set s.handle (d.act k s.act).2 ++ d.opened k s.act)

/-- What is seen step by step: what the step gives, and where all handles stand after it. -/
def observe : List κ → List Step → List (Option Bytes × List Nat)
  | _, [] => []
  | handles, s :: steps =>
      ((d.perform handles s).1, (d.perform handles s).2.map d.position) ::
        observe (d.perform handles s).2 steps

end Device

def input : Device Input where
  read n i := ((i.read n).1.toOption, (i.read n).2)
  readExact n i := ((i.readExact n).1.toOption, (i.readExact n).2)
  seek goal i := (i.seek goal).toOption
  clone := Input.clone
  position := Input.position

def cursor (b : Bytes) : Device Nat where
  read n pos := (some (b.slice pos n), pos + min n (b.length - pos))
  readExact n pos :=
    (if n ≤ b.length - pos then some (b.slice pos n) else none, pos + min n (b.length - pos))
  seek goal pos := goal.offset? b.length pos
  clone _ := 0
  position := id

/-- Offsets of files have 63 bits. -/
def offsetLimit : Nat := UInt64.size / 2

/-- No handle comes to an offset that files do not have. -/
def InRange (b : Bytes) (steps : List Step) : Prop :=
  ∀ seen ∈ (cursor b).observe [0] steps, ∀ pos ∈ seen.2, pos < offsetLimit

section

variable {p : Tape} {i : Input} {inputs : List Input}

theorem act_spec (h : Over p i) (a : Act)
    (hrange : ((cursor p.toBytes).act i.position a).2 < offsetLimit) :
    (input.act i a).1 = ((cursor p.toBytes).act i.position a).1 ∧ Over p (input.act i a).2 ∧
      (input.act i a).2.position = ((cursor p.toBytes).act i.position a).2 := by
  cases a with
  | read n =>
      obtain ⟨j, hread, hover, hpos⟩ := h.readInto (r := .unknown) (n := n) (fun _ => by decide)
        (Nat.le_refl _)
      have hread : i.read n = (.ok (p.toBytes.slice i.position n), j) := hread
      simp only [Device.act, input, cursor, hread, Tape.length_toBytes]
      exact ⟨rfl, hover, hpos⟩
  | readExact n =>
      obtain ⟨j, hread, hover, hpos⟩ := h.readExact n
      rw [← Tape.length_toBytes] at hread hpos
      simp only [Device.act, input, cursor, hread]
      refine ⟨?_, hover, hpos⟩
      by_cases hwhole : n ≤ p.toBytes.length - i.position
      · rw [if_pos hwhole, if_pos hwhole]
        rfl
      · rw [if_neg hwhole, if_neg hwhole]
        rfl
  | seek goal =>
      simp only [Device.act, input, cursor, Tape.length_toBytes] at hrange ⊢
      cases hgoal : goal.offset? p.size i.position with
      | none =>
          obtain ⟨e, he⟩ := h.seek_of_none hgoal
          rw [he]
          exact ⟨rfl, h, rfl⟩
      | some n =>
          rw [hgoal] at hrange
          have hwide : offsetLimit ≤ UInt64.size := by decide
          obtain ⟨j, hj, hover, hpos⟩ := h.seek_of_some hgoal (Nat.lt_of_lt_of_le hrange hwide)
          rw [hj]
          exact ⟨rfl, hover, hpos⟩
  | clone => exact ⟨rfl, h, rfl⟩

theorem position_clone (i : Input) : i.clone.position = 0 := by
  cases i <;> rfl

theorem opened_spec (h : Over p i) (a : Act) :
    (input.opened i a).map Input.position = (cursor p.toBytes).opened i.position a ∧
      ∀ j ∈ input.opened i a, Over p j := by
  cases a with
  | clone =>
      refine ⟨congrArg (fun pos => [pos]) (position_clone i), fun j hj => ?_⟩
      obtain rfl := List.mem_singleton.mp hj
      exact h.clone
  | read n => exact ⟨rfl, by simp [Device.opened]⟩
  | readExact n => exact ⟨rfl, by simp [Device.opened]⟩
  | seek goal => exact ⟨rfl, by simp [Device.opened]⟩

theorem perform_spec (h : ∀ i ∈ inputs, Over p i) (s : Step)
    (hrange : ∀ pos ∈ ((cursor p.toBytes).perform (inputs.map Input.position) s).2,
      pos < offsetLimit) :
    (input.perform inputs s).1 =
        ((cursor p.toBytes).perform (inputs.map Input.position) s).1 ∧
      (input.perform inputs s).2.map Input.position =
        ((cursor p.toBytes).perform (inputs.map Input.position) s).2 ∧
      ∀ i ∈ (input.perform inputs s).2, Over p i := by
  simp only [Device.perform, List.getElem?_map] at hrange ⊢
  cases hk : inputs[s.handle]? with
  | none => exact ⟨rfl, rfl, h⟩
  | some i =>
      have hi := h i (List.mem_of_getElem? hk)
      rw [hk] at hrange
      simp only [Option.map_some] at hrange ⊢
      have hlt : s.handle < (inputs.map Input.position).length := by
        rw [List.length_map]
        exact (List.getElem?_eq_some_iff.mp hk).1
      obtain ⟨hgot, hover, hpos⟩ :=
        act_spec hi s.act (hrange _ (List.mem_append_left _ (List.mem_set hlt _)))
      obtain ⟨hopened, hnew⟩ := opened_spec hi s.act
      refine ⟨hgot, by rw [List.map_append, List.map_set, hpos, hopened], fun j hj => ?_⟩
      rcases List.mem_append.mp hj with hj | hj
      · rcases List.mem_or_eq_of_mem_set hj with hj | rfl
        · exact h j hj
        · exact hover
      · exact hnew j hj

theorem observe_eq (h : ∀ i ∈ inputs, Over p i) (steps : List Step)
    (hrange : ∀ seen ∈ (cursor p.toBytes).observe (inputs.map Input.position) steps,
      ∀ pos ∈ seen.2, pos < offsetLimit) :
    input.observe inputs steps = (cursor p.toBytes).observe (inputs.map Input.position) steps := by
  induction steps generalizing inputs with
  | nil => rfl
  | cons s steps ih =>
      rw [Device.observe, List.forall_mem_cons] at hrange
      obtain ⟨hnow, hrest⟩ := hrange
      have hid : (cursor p.toBytes).position = id := rfl
      rw [hid, List.map_id] at hnow
      obtain ⟨hgot, hpos, hover⟩ := perform_spec h s hnow
      rw [← hpos] at hrest
      have hposition : input.position = Input.position := rfl
      rw [Device.observe, Device.observe, hgot, hposition, hid, List.map_id, ih hover hrest, hpos]

end

section

variable {b : Bytes}

def Act.Modest : Act → Prop
  | .seek (.start n) => n < UInt32.size
  | .seek (.fromEnd d) => d < UInt32.size
  | .seek (.current d) => d < UInt32.size
  | _ => True

instance : DecidablePred Act.Modest
  | .seek (.start n) => inferInstanceAs (Decidable (n < UInt32.size))
  | .seek (.fromEnd d) => inferInstanceAs (Decidable (d < (UInt32.size : Int)))
  | .seek (.current d) => inferInstanceAs (Decidable (d < (UInt32.size : Int)))
  | .read _ => .isTrue trivial
  | .readExact _ => .isTrue trivial
  | .clone => .isTrue trivial

theorem offset?_le {goal : Seek} (h : (Act.seek goal).Modest) {length pos n m : Nat}
    (hpos : pos ≤ length + m) (hgoal : goal.offset? length pos = some n) :
    n ≤ length + (m + UInt32.size) := by
  rw [Seek.offset?] at hgoal
  split at hgoal
  · cases hgoal
  · obtain rfl := Option.some.inj hgoal
    cases goal with
    | start k =>
        have hk : k < UInt32.size := h
        simp only [Seek.target]
        omega
    | fromEnd d =>
        have hd : d < UInt32.size := h
        simp only [Seek.target]
        omega
    | current d =>
        have hd : d < UInt32.size := h
        simp only [Seek.target]
        omega

theorem act_le {a : Act} (h : a.Modest) {pos m : Nat} (hpos : pos ≤ b.length + m) :
    ((cursor b).act pos a).2 ≤ b.length + (m + UInt32.size) := by
  cases a with
  | read n =>
      simp only [Device.act, cursor]
      omega
  | readExact n =>
      simp only [Device.act, cursor]
      omega
  | seek goal =>
      simp only [Device.act, cursor]
      cases hgoal : goal.offset? b.length pos with
      | none =>
          dsimp only
          omega
      | some n => exact offset?_le h hpos hgoal
  | clone =>
      simp only [Device.act]
      omega

theorem perform_le {handles : List Nat} {m : Nat} {s : Step} (h : s.act.Modest)
    (hpos : ∀ pos ∈ handles, pos ≤ b.length + m) :
    ∀ pos ∈ ((cursor b).perform handles s).2, pos ≤ b.length + (m + UInt32.size) := by
  have hstay : ∀ pos ∈ handles, pos ≤ b.length + (m + UInt32.size) := fun pos hmem =>
    (hpos pos hmem).trans (by omega)
  rw [Device.perform]
  cases hk : handles[s.handle]? with
  | none => exact hstay
  | some k =>
      intro pos hmem
      rcases List.mem_append.mp hmem with hmem | hmem
      · rcases List.mem_or_eq_of_mem_set hmem with hmem | rfl
        · exact hstay pos hmem
        · exact act_le h (hpos k (List.mem_of_getElem? hk))
      · have hzero : pos = 0 := by
          cases hact : s.act <;> simp_all [Device.opened, cursor]
        omega

theorem observe_le {handles : List Nat} {m : Nat} {steps : List Step}
    (h : ∀ s ∈ steps, s.act.Modest) (hpos : ∀ pos ∈ handles, pos ≤ b.length + m) :
    ∀ seen ∈ (cursor b).observe handles steps, ∀ pos ∈ seen.2,
      pos ≤ b.length + (m + steps.length * UInt32.size) := by
  induction steps generalizing handles m with
  | nil => simp [Device.observe]
  | cons s steps ih =>
      rw [List.forall_mem_cons] at h
      have hnow := perform_le h.1 hpos
      have hposition : (cursor b).position = id := rfl
      rw [Device.observe, List.forall_mem_cons, hposition, List.map_id, List.length_cons,
        Nat.succ_mul, Nat.add_comm (steps.length * _), ← Nat.add_assoc m]
      constructor
      · intro pos hmem
        exact (hnow pos hmem).trans (Nat.add_le_add_left (Nat.le_add_right _ _) _)
      · exact ih h.2 hnow

/-- Offsets below 4 GiB keep the handles in range, unless there are some 2^31 steps. -/
theorem inRange_of_modest {steps : List Step} (h : ∀ s ∈ steps, s.act.Modest)
    (hlen : b.length + steps.length * UInt32.size < offsetLimit) : InRange b steps := by
  intro seen hseen pos hmem
  have hle := observe_le (m := 0) h (by simp) seen hseen pos hmem
  rw [Nat.zero_add] at hle
  exact Nat.lt_of_le_of_lt hle hlen

end

theorem position_of_openInput {s t : Storage} {name : String} {i : Input}
    (h : Storing.openInput name s = .ok i t) : i.position = 0 := by
  rcases call_cases .openFile name s with hc | ⟨-, hc⟩
  · rw [Storing.openInput, bind_of_ok hc, get_bind] at h
    cases hb : (counted s).backend with
    | memory files =>
        cases hf : files[name]? <;> simp only [hb, hf] at h <;> cases h
        rfl
    | directory fs d =>
        cases hf : fs.find (Path.join d.path name) with
        | error e =>
            simp only [hb, hf] at h
            cases h
        | ok found =>
            obtain ⟨loc, node⟩ := found
            cases node <;> cases hm : d.memoryMapped <;> simp only [hb, hf, hm] at h <;> cases h
            all_goals rfl
  · rw [Storing.openInput, bind_of_error hc] at h
    cases h

theorem over_of_openInput {s t : Storage} {name : String} {i : Input} {b : Bytes}
    (hfile : s.file? name = some b) (h : Storing.openInput name s = .ok i t) :
    ∃ p : Tape, p.toBytes = b ∧ Over p i := by
  rw [file?_eq, Option.bind_eq_some_iff] at hfile
  obtain ⟨loc, hplace, hbytes⟩ := hfile
  have hanswer : (Request.openInput name).answer s = (.ok i, t) := answer_of_ok h
  obtain ⟨⟨e, u, hstop, -⟩, -⟩ | ⟨j, p, u, hopen, -, -, hover, hp, -⟩ :=
    openInput_cases 0 hplace hbytes
  · rw [hanswer] at hstop
    cases hstop
  · rw [hanswer] at hopen
    cases hopen
    exact ⟨p, hp, hover⟩

theorem observe_of_over {p : Tape} {i : Input} {b : Bytes} (hover : Over p i) (hp : p.toBytes = b)
    (hpos : i.position = 0) {steps : List Step} (hrange : InRange b steps) :
    input.observe [i] steps = (cursor b).observe [0] steps := by
  subst hp
  have hone : [i].map Input.position = [0] := by rw [List.map_singleton, hpos]
  rw [← hone]
  apply observe_eq
  · intro j hj
    obtain rfl := List.mem_singleton.mp hj
    exact hover
  · rw [hone]
    exact hrange

/-- Bytes in memory, a file read in blocks of any size and a mapped file of the same content give
the same bytes and the same failures, step by step, and stand at the same places, whatever reads,
seeks and clones follow each other on whichever of the open handles: those of offsets into the
content, of which a read or a seek moves the one it is for, a seek that fails none, and a clone
begins at 0. So does the input that any storage opens for a file with the content. -/
theorem observe_opened (content : Packed) (steps : List Step)
    (hrange : InRange content.toBytes steps) :
    input.observe [.snapshot (.opened content)] steps =
        (cursor content.toBytes).observe [0] steps ∧
      (∀ k capacity, input.observe [.buffered (.file k) (.opened capacity content)] steps =
        (cursor content.toBytes).observe [0] steps) ∧
      (∀ k, input.observe [.mapped k (.opened content)] steps =
        (cursor content.toBytes).observe [0] steps) ∧
      ∀ (s t : Storage) (name : String) (i : Input), s.file? name = some content.toBytes →
        Storing.openInput name s = .ok i t →
          input.observe [i] steps = (cursor content.toBytes).observe [0] steps := by
  have hsnapshot : Over ⟨content, none⟩ (.snapshot (.opened content)) := ⟨rfl, rfl⟩
  have hbuffered : ∀ k capacity, Over ⟨content, some k⟩
      (.buffered (.file k) (.opened capacity content)) := fun k capacity =>
    ⟨rfl, rfl, consistent_of_empty rfl, rfl⟩
  have hmapped : ∀ k, Over ⟨content, some k⟩ (.mapped k (.opened content)) := fun k =>
    ⟨rfl, rfl, rfl⟩
  refine ⟨observe_of_over hsnapshot rfl rfl hrange,
    fun k capacity => observe_of_over (hbuffered k capacity) rfl rfl hrange,
    fun k => observe_of_over (hmapped k) rfl rfl hrange, ?_⟩
  intro s t name i hfile hopen
  obtain ⟨p, hp, hover⟩ := over_of_openInput hfile hopen
  exact observe_of_over hover hp (position_of_openInput hopen) hrange

def wandering : List Step :=
  [⟨0, .read 1⟩, ⟨0, .seek (.current 1)⟩, ⟨0, .clone⟩, ⟨1, .readExact 4⟩, ⟨0, .seek (.fromEnd (-4))⟩,
    ⟨0, .read 9⟩, ⟨1, .seek (.start 7)⟩, ⟨1, .read 1⟩]

theorem observe_opened_wandering :
    input.observe [.buffered (.file 0) (.opened 2 (.ofBytes [1, 2, 3]))] wandering =
      [(some [1], [1]), (some [], [2]), (some [], [2, 0]), (none, [2, 3]), (none, [2, 3]),
        (some [3], [3, 3]), (some [], [3, 7]), (some [], [3, 7])] := by
  have hmodest : ∀ s ∈ wandering, s.act.Modest := by decide
  have hbytes : (Packed.ofBytes [1, 2, 3]).toBytes = [1, 2, 3] := Packed.toBytes_ofBytes _
  have hrange : InRange (Packed.ofBytes [1, 2, 3]).toBytes wandering := by
    apply inRange_of_modest hmodest
    rw [hbytes]
    decide
  rw [(observe_opened (.ofBytes [1, 2, 3]) wandering hrange).2.1 0 2, hbytes]
  decide

end Concordance.Proofs.InputKinds
