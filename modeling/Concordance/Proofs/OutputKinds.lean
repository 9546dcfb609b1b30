import Concordance.Proofs.InputKinds
import Concordance.Proofs.Outputs

namespace Concordance.Proofs.OutputKinds

open Outcomes Places FileActions Cursors Calls Outputs

inductive Step
  | write (b : Bytes)
  | seek (goal : Seek)
  | flush
  | sync
  deriving DecidableEq

structure Device (σ : Type) where
  perform : Step → σ → Bool × σ
  position : σ → Nat

namespace Device

variable {σ τ : Type} (d : Device σ)

def after : List Step → σ → σ
  | [], x => x
  | s :: steps, x => after steps (d.perform s x).2

def observe : List Step → σ → List (Bool × Nat)
  | [], _ => []
  | s :: steps, x =>
      ((d.perform s x).1, d.position (d.perform s x).2) :: observe steps (d.perform s x).2

/-- Devices that stay related step by step look the same, and are related in the end. -/
theorem simulates {d : Device σ} {e : Device τ} {R : σ → τ → Prop}
    (hposition : ∀ {x y}, R x y → d.position x = e.position y)
    (hstep : ∀ {x y} s, R x y →
      (d.perform s x).1 = (e.perform s y).1 ∧ R (d.perform s x).2 (e.perform s y).2)
    (steps : List Step) {x : σ} {y : τ} (h : R x y) :
    d.observe steps x = e.observe steps y ∧ R (d.after steps x) (e.after steps y) := by
  induction steps generalizing x y with
  | nil => exact ⟨rfl, h⟩
  | cons s steps ih =>
      obtain ⟨hdone, hnext⟩ := hstep s h
      obtain ⟨hobserve, hafter⟩ := ih hnext
      rw [observe, observe, hdone, hposition hnext, hobserve]
      exact ⟨rfl, hafter⟩

end Device

def Step.action : Step → Writing Unit
  | .write b => Writing.write b
  | .seek goal => Writing.seek goal
  | .flush | .sync => Writing.flush

def output : Device (Output × Storage) where
  perform s x :=
    match s.action x with
    | .ok _ x => (true, x)
    | .error _ x => (false, x)
  position x := x.1.position

inductive Ending
  | close
  | drop
  deriving DecidableEq

def Ending.action (o : Output) : Ending → Storing Unit
  | .close => do
      let (closed, _) ← Storing.onOutput o Writing.close
      ofExcept closed
  | .drop => Storing.dropOutput o

/-- What was written and the offsets that it went to, the latest first, and where the cursor
stands. -/
structure Ledger where
  writes : List (Nat × Bytes)
  position : Nat
  deriving DecidableEq

namespace Ledger

def empty : Ledger := ⟨[], 0⟩

def reached (l : Ledger) : Nat :=
  l.writes.foldr (fun w n => if w.2 = [] then n else max n (w.1 + w.2.length)) 0

def byteAt? (l : Ledger) (i : Nat) : Option UInt8 :=
  l.writes.findSome? fun w => if w.1 ≤ i then w.2[i - w.1]? else none

/-- What is left in the end, with zeros where nothing was written. -/
def content (l : Ledger) : Bytes := (List.range l.reached).map fun i => (l.byteAt? i).getD 0

def write (b : Bytes) (l : Ledger) : Ledger :=
  ⟨(l.position, b) :: l.writes, l.position + b.length⟩

variable {l : Ledger} {b : Bytes} {i : Nat}

theorem length_content : l.content.length = l.reached := by
  rw [content, List.length_map, List.length_range]

theorem getElem?_content (i : Nat) :
    l.content[i]? = if i < l.reached then some ((l.byteAt? i).getD 0) else none := by
  rw [content, List.getElem?_map]
  by_cases hi : i < l.reached
  · rw [if_pos hi, List.getElem?_range hi, Option.map_some]
  · rw [if_neg hi, List.getElem?_eq_none (by rw [List.length_range]; omega), Option.map_none]

theorem reached_write : (l.write b).reached =
    if b = [] then l.reached else max l.reached (l.position + b.length) := rfl

theorem byteAt?_write : (l.write b).byteAt? i =
    if l.position ≤ i ∧ i < l.position + b.length then b[i - l.position]? else l.byteAt? i := by
  rw [byteAt?, write, List.findSome?_cons]
  dsimp only
  by_cases hle : l.position ≤ i
  · rw [if_pos hle]
    by_cases hlt : i < l.position + b.length
    · rw [if_pos ⟨hle, hlt⟩, List.getElem?_eq_getElem (by omega)]
    · rw [if_neg fun h => hlt h.2, List.getElem?_eq_none (by omega)]
      rfl
  · rw [if_neg hle, if_neg fun h => hle h.1]
    rfl

theorem le_reached {w : Nat × Bytes} (hw : w ∈ l.writes) (hb : w.2 ≠ []) :
    w.1 + w.2.length ≤ l.reached := by
  obtain ⟨writes, position⟩ := l
  rw [reached]
  dsimp only at hw ⊢
  induction writes with
  | nil => cases hw
  | cons v writes ih =>
      rw [List.foldr_cons]
      rcases List.mem_cons.mp hw with rfl | hw
      · rw [if_neg hb]
        exact Nat.le_max_right _ _
      · have hle := ih hw
        split
        · exact hle
        · exact hle.trans (Nat.le_max_left _ _)

theorem byteAt?_of_le (h : l.reached ≤ i) : l.byteAt? i = none := by
  rw [byteAt?, List.findSome?_eq_none_iff]
  intro w hw
  split
  · rename_i hstart
    by_cases hb : w.2 = []
    · rw [hb, List.getElem?_nil]
    · have hle := le_reached hw hb
      exact List.getElem?_eq_none (by omega)
  · rfl

theorem content_write (l : Ledger) (b : Bytes) :
    (l.write b).content = l.content.overwrite l.position b := by
  apply List.ext_getElem?
  intro i
  rw [getElem?_content, reached_write, byteAt?_write]
  by_cases hb : b = []
  · have hnot : ¬ (l.position ≤ i ∧ i < l.position + b.length) := by
      rw [hb, List.length_nil]
      omega
    rw [if_pos hb, if_neg hnot, hb, Bytes.overwrite_nil, getElem?_content]
  rw [if_neg hb, Bytes.getElem?_overwrite _ _ hb, getElem?_content]
  -- before the written bytes, within them and behind them
  by_cases hstart : i < l.position
  · have hnot : ¬ (l.position ≤ i ∧ i < l.position + b.length) := by omega
    rw [if_pos hstart, if_pos (by omega), if_neg hnot]
    by_cases hi : i < l.reached
    · rw [if_pos hi, Option.getD_some]
    · rw [if_neg hi, byteAt?_of_le (Nat.le_of_not_lt hi)]
  rw [if_neg hstart]
  by_cases hend : i < l.position + b.length
  · rw [if_pos hend, if_pos (by omega), if_pos ⟨Nat.le_of_not_lt hstart, hend⟩,
      List.getElem?_eq_getElem (by omega), Option.getD_some]
  · have hnot : ¬ (l.position ≤ i ∧ i < l.position + b.length) := fun h => hend h.2
    rw [if_neg hend, if_neg hnot]
    by_cases hi : i < l.reached
    · rw [if_pos hi, if_pos (by omega)]
    · rw [if_neg hi, if_neg (by omega)]

end Ledger

/-- The list as something to write to: a goal before the beginning is the one thing that fails. -/
def ledger : Device Ledger where
  perform
    | .write b, l => (true, l.write b)
    | .seek goal, l =>
        match goal.offset? l.reached l.position with
        | some n => (true, { l with position := n })
        | none => (false, l)
    | .flush, l | .sync, l => (true, l)
  position := Ledger.position

/-- With what is pending put over it a file has the given bytes, and the next write goes to the given
offset. -/
structure Carries (g : GatheringOutput) (content : Packed) (image : Bytes) (pos : Nat) : Prop where
  image : content.toBytes.overwrite g.offset g.pending = image
  offset : g.offset + g.pending.length = pos

section

variable {g : GatheringOutput} {content : Packed} {image : Bytes} {pos : Nat}

theorem Carries.put (h : Carries g content image pos) (hp : g.pending = []) (b : Bytes) :
    Carries (g.put b content).1 (g.put b content).2 (image.overwrite pos b) (pos + b.length) := by
  obtain ⟨himage, hoffset⟩ := h
  rw [hp, Bytes.overwrite_nil] at himage
  rw [hp, List.length_nil, Nat.add_zero] at hoffset
  refine ⟨?_, ?_⟩
  · simp only [GatheringOutput.put, hp, Bytes.overwrite_nil]
    rw [Packed.toBytes_overwrite, himage, hoffset]
  · simp only [GatheringOutput.put, hp]
    rw [hoffset, List.length_nil, Nat.add_zero]

theorem Carries.flush (h : Carries g content image pos) :
    Carries (g.flush content).1 (g.flush content).2 image pos ∧ (g.flush content).1.pending = [] := by
  have h' : Carries { g with pending := [] } content content.toBytes g.offset :=
    ⟨Bytes.overwrite_nil _ _, rfl⟩
  have hput := h'.put rfl g.pending
  rw [h.image, h.offset] at hput
  exact ⟨hput, rfl⟩

theorem Carries.pend (h : Carries g content image pos) (b : Bytes) :
    Carries { g with pending := g.pending ++ b } content (image.overwrite pos b)
      (pos + b.length) := by
  obtain ⟨rfl, rfl⟩ := h
  exact ⟨Bytes.overwrite_append _ _ _ _, by rw [List.length_append, Nat.add_assoc]⟩

theorem Carries.take (h : Carries g content image pos) {b : Bytes} (hb : b ≠ []) :
    Carries (g.take b content).1 (g.take b content).2 (image.overwrite pos b) (pos + b.length) ∧
      (g.take b content).1.position = g.position := by
  obtain ⟨hflush, hempty⟩ := h.flush
  rcases take_cases g content hb with htake | htake | htake <;> rw [htake]
  · exact ⟨h.pend b, rfl⟩
  · exact ⟨hflush.pend b, rfl⟩
  · exact ⟨hflush.put hempty b, rfl⟩

theorem Carries.write (h : Carries g content image pos) (hpos : g.position = pos) {b : Bytes}
    (hb : b ≠ []) :
    Carries (g.write b content).1 (g.write b content).2 (image.overwrite pos b) (pos + b.length) ∧
      (g.write b content).1.position = pos + b.length := by
  obtain ⟨htake, hstays⟩ := h.take hb
  have hmoved : (g.take b content).1.position + b.length = pos + b.length := by rw [hstays, hpos]
  have hcarries : Carries { (g.take b content).1 with position := (g.take b content).1.position +
      b.length } (g.take b content).2 (image.overwrite pos b) (pos + b.length) :=
    ⟨htake.image, htake.offset⟩
  rw [GatheringOutput.write, if_neg hb]
  dsimp only
  split
  · exact ⟨hcarries.flush.1, hmoved⟩
  · exact ⟨hcarries, hmoved⟩

theorem Carries.flushed (h : Carries g content image pos) :
    (g.flush content).2.toBytes = image ∧ (g.flush content).1.offset = pos := by
  obtain ⟨⟨himage, hoffset⟩, hempty⟩ := h.flush
  rw [hempty, Bytes.overwrite_nil] at himage
  rw [hempty, List.length_nil, Nat.add_zero] at hoffset
  exact ⟨himage, hoffset⟩

theorem Carries.seek_eq (h : Carries g content image pos) (goal : Seek) :
    g.seek goal content = match goal.offset? image.length pos with
      | some n => (.ok (), { (g.flush content).1 with offset := n, position := n },
          (g.flush content).2)
      | none => (.error (.system .invalidArgument), (g.flush content).1, (g.flush content).2) := by
  obtain ⟨himage, hoffset⟩ := h.flushed
  have hsize : (g.flush content).2.size = image.length := by
    rw [← himage, Packed.length_toBytes]
  cases hgoal : goal.offset? image.length pos with
  | some n => simp only [GatheringOutput.seek, hsize, hoffset, hgoal]
  | none => simp only [GatheringOutput.seek, hsize, hoffset, hgoal]

end

/-- An open output that, when it is closed, leaves the given bytes under the name, and that stands at
the given offset. -/
inductive Holds (name : String) (image : Bytes) (pos : Nat) : Output × Storage → Prop
  | memory {o : Output} {s : Storage} {files : Files} {m : HeldOutput}
      (backend : s.backend = .memory files) (called : o.name = name) (sink : o.sink = .memory m)
      (opened : m.closed = false) (buffer : m.buffer.toBytes = image)
      (position : m.position = pos) : Holds name image pos (o, s)
  | file {o : Output} {s : Storage} {fs : FileSystem} {d : DirectorySettings} {loc : Location}
      {k : Nat} {g : GatheringOutput} (backend : s.backend = .directory fs d)
      (sink : o.sink = .file k g) (place : placeIn fs (Path.join d.path name) = some loc)
      (number : fs.node? loc = some (.file k)) (carries : Carries g (fs.content k) image pos)
      (position : g.position = pos) : Holds name image pos (o, s)

section

variable {name : String} {image : Bytes} {pos : Nat} {o : Output} {s : Storage}

theorem Holds.position {x : Output × Storage} (h : Holds name image pos x) :
    x.1.position = pos := by
  cases h with
  | memory hback hcalled hs hopen hbuffer hpos =>
      rw [← hpos, Output.position]
      simp only [hs]
  | file hback hs hplace hk hcarries hpos =>
      rw [← hpos, Output.position]
      simp only [hs]

theorem holds_setContent {fs : FileSystem} {d : DirectorySettings} {loc : Location} {k : Nat}
    {g : GatheringOutput} {p : Packed} (hb : s.backend = .directory fs d)
    (hplace : placeIn fs (Path.join d.path name) = some loc)
    (hk : fs.node? loc = some (.file k)) (hcarries : Carries g p image pos)
    (hpos : g.position = pos) (o : Output) :
    Holds name image pos ({ o with sink := .file k g }, s.setContent k p) := by
  rw [setContent_of_directory hb]
  exact .file rfl rfl ((placeIn_congr (sameWays_setContent k p)).trans hplace) hk
    ((content_setContent_self hk p).symm ▸ hcarries) hpos

theorem seek_memory {m : HeldOutput} (hs : o.sink = .memory m) (goal : Seek) :
    Writing.seek goal (o, s) = match m.seek goal with
      | .ok m => .ok () ({ o with sink := .memory m }, s)
      | .error f => .error (.io f) (o, s) := by
  rw [Writing.seek, get_bind]
  simp only [hs]
  cases m.seek goal <;> rfl

theorem seek_file {k : Nat} {g : GatheringOutput} (hs : o.sink = .file k g) (goal : Seek) :
    Writing.seek goal (o, s) = match g.seek goal (s.content k) with
      | (.ok _, g, content) => .ok () ({ o with sink := .file k g }, s.setContent k content)
      | (.error f, g, content) =>
          .error (.io f) ({ o with sink := .file k g }, s.setContent k content) := by
  rw [Writing.seek, get_bind]
  simp only [hs]
  obtain ⟨moved, g, content⟩ := g.seek goal (s.content k)
  cases moved <;> rfl

theorem Holds.write (h : Holds name image pos (o, s)) (hw : Willing o) (b : Bytes) :
    ∃ o' t, Writing.write b (o, s) = .ok () (o', t) ∧ t.plan = s.plan ∧ Willing o' ∧
      Holds name (image.overwrite pos b) (pos + b.length) (o', t) := by
  by_cases hb : b = []
  · rw [hb, write_nil, Bytes.overwrite_nil]
    exact ⟨o, s, rfl, rfl, hw, h⟩
  have hr : ¬ o.refuses o.writes = true := by simp [hw o.writes]
  cases h with
  | memory hback hcalled hs hopen hbuffer hpos =>
      rename_i files m
      refine ⟨_, s, write_memory hb hr hs hopen, rfl, hw, .memory hback hcalled rfl hopen ?_ ?_⟩
      · rw [Packed.toBytes_overwrite, hbuffer, hpos]
      · rw [hpos]
  | file hback hs hplace hk hcarries hpos =>
      rename_i fs d loc k g
      obtain ⟨hwritten, hmoved⟩ := hcarries.write hpos hb
      have hrun := write_file (s := s) hb hr hs
      rw [content_of_directory hback] at hrun
      exact ⟨_, _, hrun, plan_setContent _ _ _, hw,
        holds_setContent hback hplace hk hwritten hmoved { o with writes := o.writes + 1 }⟩

theorem Holds.seek (h : Holds name image pos (o, s)) (goal : Seek) :
    match goal.offset? image.length pos with
    | some n => ∃ o' t, Writing.seek goal (o, s) = .ok () (o', t) ∧ t.plan = s.plan ∧
        o'.refuses = o.refuses ∧ Holds name image n (o', t)
    | none => ∃ e o' t, Writing.seek goal (o, s) = .error e (o', t) ∧ t.plan = s.plan ∧
        o'.refuses = o.refuses ∧ Holds name image pos (o', t) := by
  cases h with
  | memory hback hcalled hs hopen hbuffer hpos =>
      rename_i files m
      have hlen : m.buffer.size = image.length := by rw [← hbuffer, Packed.length_toBytes]
      have hrun := seek_memory (s := s) hs goal
      rw [HeldOutput.seek, if_neg (by simp [hopen]), hlen, hpos] at hrun
      cases hgoal : goal.offset? image.length pos with
      | some n =>
          rw [hgoal] at hrun
          exact ⟨_, s, hrun, rfl, rfl, .memory hback hcalled rfl hopen hbuffer rfl⟩
      | none =>
          rw [hgoal] at hrun
          exact ⟨_, o, s, hrun, rfl, rfl, .memory hback hcalled hs hopen hbuffer hpos⟩
  | file hback hs hplace hk hcarries hpos =>
      rename_i fs d loc k g
      have hrun := seek_file (s := s) hs goal
      rw [content_of_directory hback, hcarries.seek_eq] at hrun
      obtain ⟨hflush, hempty⟩ := hcarries.flush
      obtain ⟨himage, -⟩ := hcarries.flushed
      cases hgoal : goal.offset? image.length pos with
      | some n =>
          rw [hgoal] at hrun
          have hmoved : Carries { (g.flush (fs.content k)).1 with offset := n, position := n }
              (g.flush (fs.content k)).2 image n := by
            refine ⟨?_, ?_⟩
            · simp only [hempty, Bytes.overwrite_nil, himage]
            · simp only [hempty, List.length_nil, Nat.add_zero]
          exact ⟨_, _, hrun, plan_setContent _ _ _, rfl,
            holds_setContent hback hplace hk hmoved rfl o⟩
      | none =>
          rw [hgoal] at hrun
          exact ⟨_, _, _, hrun, plan_setContent _ _ _, rfl,
            holds_setContent hback hplace hk hflush hpos o⟩

theorem Holds.flush (h : Holds name image pos (o, s)) : ∃ o' t,
    Writing.flush (o, s) = .ok () (o', t) ∧ t.plan = s.plan ∧ o'.refuses = o.refuses ∧
      Holds name image pos (o', t) := by
  cases h with
  | memory hback hcalled hs hopen hbuffer hpos =>
      exact ⟨o, s, flush_memory hs, rfl, rfl, .memory hback hcalled hs hopen hbuffer hpos⟩
  | file hback hs hplace hk hcarries hpos =>
      have hrun := flush_file (s := s) hs
      rw [content_of_directory hback] at hrun
      exact ⟨_, _, hrun, plan_setContent _ _ _, rfl,
        holds_setContent hback hplace hk hcarries.flush.1 hpos o⟩

theorem file?_setContent {fs : FileSystem} {d : DirectorySettings} {loc : Location} {k : Nat}
    (hb : s.backend = .directory fs d) (hplace : placeIn fs (Path.join d.path name) = some loc)
    (hk : fs.node? loc = some (.file k)) (p : Packed) :
    (s.setContent k p).file? name = some p.toBytes := by
  have hplace' : placeIn (fs.setContent k p) (Path.join d.path name) = some loc :=
    (placeIn_congr (sameWays_setContent k p)).trans hplace
  have hnode : (fs.setContent k p).node? loc = some (.file k) := hk
  rw [setContent_of_directory hb, file?_eq, place?]
  simp only [hplace', Option.bind_some, fileAt, heldIn, hnode, content_setContent_self hk]

theorem Holds.close (h : Holds name image pos (o, s)) : ∃ o' t,
    Writing.close (o, s) = .ok () (o', t) ∧ t.plan = s.plan ∧ t.file? name = some image := by
  cases h with
  | memory hback hcalled hs hopen hbuffer hpos =>
      rename_i files m
      refine ⟨_, _, close_memory hback hs hopen, rfl, ?_⟩
      change (files.insert o.name m.buffer)[name]?.map Packed.toBytes = _
      rw [getElem?_insert, if_pos hcalled.symm, Option.map_some, hbuffer]
  | file hback hs hplace hk hcarries hpos =>
      have hrun := flush_file (s := s) hs
      rw [content_of_directory hback, ← close_file hs] at hrun
      refine ⟨_, _, hrun, plan_setContent _ _ _, ?_⟩
      rw [file?_setContent hback hplace hk, hcarries.flushed.1]

theorem carries_opened {content : Packed} (h : content.toBytes = []) (size : Nat) (flushes : Bool) :
    Carries (.opened size flushes) content [] 0 :=
  ⟨by rw [h]; rfl, rfl⟩

theorem holds_createOutput_memory {files : Files} {t : Storage} (hb : s.backend = .memory files)
    (hc : Storing.call .create name s = .ok () (counted s))
    (hrun : Storing.createOutput name s = .ok o t) :
    o.refuses = s.plan.refusesWrite s.clock name ∧ t.plan = s.plan ∧ Holds name [] 0 (o, t) := by
  rw [Storing.createOutput, get_bind, bind_of_ok hc, get_bind] at hrun
  have hcounted : (counted s).backend = .memory files := hb
  simp only [hcounted] at hrun
  cases hpresent : files.contains name with
  | true =>
      simp only [hpresent] at hrun
      cases hrun
      exact ⟨rfl, rfl, .memory hb rfl rfl rfl rfl rfl⟩
  | false =>
      simp only [hpresent] at hrun
      cases hrun
      exact ⟨rfl, rfl, .memory rfl rfl rfl rfl rfl rfl⟩

theorem holds_createOutput_directory {fs : FileSystem} {d : DirectorySettings} {t : Storage}
    (hb : s.backend = .directory fs d) (hc : Storing.call .create name s = .ok () (counted s))
    (hrun : Storing.createOutput name s = .ok o t) :
    o.refuses = s.plan.refusesWrite s.clock name ∧ t.plan = s.plan ∧ Holds name [] 0 (o, t) := by
  rw [createOutput_directory hb hc] at hrun
  rcases create_spec (Path.join d.path name) fs with
    ⟨e, he⟩ | ⟨loc, hplace, ⟨hnone, hok⟩ | ⟨k, hk, hok⟩⟩
  · rw [he] at hrun
    cases hrun
  · rw [hok] at hrun
    cases hrun
    have hempty : (fs.addFile loc).2.content (fs.addFile loc).1 = .empty :=
      (content_addFile _).trans (content_size fs)
    exact ⟨rfl, rfl, .file rfl rfl ((placeIn_congr (sameWays_addFile hnone)).trans hplace)
      ((node?_addFile (ne_nil_of_none hnone) loc).trans (if_pos rfl))
      (carries_opened (by rw [hempty]; rfl) _ _) rfl⟩
  · rw [hok] at hrun
    cases hrun
    exact ⟨rfl, rfl, .file rfl rfl ((placeIn_congr (sameWays_setContent k .empty)).trans hplace) hk
      (carries_opened (by rw [content_setContent_self hk]; rfl) _ _) rfl⟩

theorem holds_createOutput {t : Storage} (hrun : Storing.createOutput name s = .ok o t) :
    o.refuses = s.plan.refusesWrite s.clock name ∧ t.plan = s.plan ∧ Holds name [] 0 (o, t) := by
  rcases call_cases .create name s with hc | ⟨-, hc⟩
  · cases hb : s.backend with
    | memory files => exact holds_createOutput_memory hb hc hrun
    | directory fs d => exact holds_createOutput_directory hb hc hrun
  · rw [Storing.createOutput, get_bind, bind_of_error hc] at hrun
    cases hrun

/-- The output and the list agree, and nothing is refused. -/
structure Keeps (name : String) (x : Output × Storage) (l : Ledger) : Prop where
  plan : x.2.plan = .none
  willing : Willing x.1
  holds : Holds name l.content l.position x

theorem Keeps.step {x : Output × Storage} {l : Ledger} (step : Step) (h : Keeps name x l) :
    (output.perform step x).1 = (ledger.perform step l).1 ∧
      Keeps name (output.perform step x).2 (ledger.perform step l).2 := by
  obtain ⟨o, s⟩ := x
  obtain ⟨hplan, hwilling, hholds⟩ := h
  cases step with
  | write b =>
      obtain ⟨o', t, hrun, ht, hw, hnext⟩ := hholds.write hwilling b
      rw [← l.content_write] at hnext
      simp only [output, Step.action, hrun]
      exact ⟨rfl, ht.trans hplan, hw, hnext⟩
  | seek goal =>
      have hseek := hholds.seek goal
      rw [Ledger.length_content] at hseek
      simp only [output, ledger, Step.action]
      cases hgoal : goal.offset? l.reached l.position with
      | some n =>
          rw [hgoal] at hseek
          obtain ⟨o', t, hrun, ht, hw, hnext⟩ := hseek
          rw [hrun]
          exact ⟨rfl, ht.trans hplan, fun k => hw ▸ hwilling k, hnext⟩
      | none =>
          rw [hgoal] at hseek
          obtain ⟨e, o', t, hrun, ht, hw, hnext⟩ := hseek
          rw [hrun]
          exact ⟨rfl, ht.trans hplan, fun k => hw ▸ hwilling k, hnext⟩
  | flush =>
      obtain ⟨o', t, hrun, ht, hw, hnext⟩ := hholds.flush
      simp only [output, Step.action, hrun]
      exact ⟨rfl, ht.trans hplan, fun k => hw ▸ hwilling k, hnext⟩
  | sync =>
      obtain ⟨o', t, hrun, ht, hw, hnext⟩ := hholds.flush
      simp only [output, Step.action, hrun]
      exact ⟨rfl, ht.trans hplan, fun k => hw ▸ hwilling k, hnext⟩

theorem Keeps.ends {l : Ledger} (ending : Ending) (h : Keeps name (o, s) l) :
    ∃ t, ending.action o s = .ok () t ∧ t.plan = .none ∧ t.file? name = some l.content := by
  obtain ⟨o', t, hrun, ht, hfile⟩ := h.holds.close
  have hclosed : Storing.onOutput o Writing.close s = .ok (.ok (), o') t := by
    rw [Storing.onOutput, hrun]
  refine ⟨t, ?_, ht.trans h.plan, hfile⟩
  cases ending with
  | close => exact bind_of_ok hclosed _
  | drop => exact bind_of_ok hclosed _

theorem openInput_of_file? {b : Bytes} (hplan : s.plan = .none) (hfile : s.file? name = some b) :
    ∃ i t, Storing.openInput name s = .ok i t := by
  rw [file?_eq, Option.bind_eq_some_iff] at hfile
  obtain ⟨loc, hplace, hbytes⟩ := hfile
  rcases openInput_cases 0 hplace hbytes with ⟨-, clock, hr⟩ | ⟨i, p, t, hanswer, -⟩
  · rw [hplan] at hr
    cases hr
  · exact ⟨i, t, perform_of_answer hanswer⟩

theorem load_of_file? {b : Bytes} (hplan : s.plan = .none) (hfile : s.file? name = some b) :
    ∃ t, Storing.load name s = .ok b t := by
  obtain ⟨i, t, hopen⟩ := openInput_of_file? hplan hfile
  obtain ⟨p, rfl, hover⟩ := InputKinds.over_of_openInput hfile hopen
  obtain ⟨j, hread, -, -⟩ := hover.readInto (r := .unknown) (n := i.size) (fun _ => by decide)
    (Nat.le_refl _)
  have hread : i.read i.size = (.ok (p.toBytes.slice i.position i.size), j) := hread
  rw [InputKinds.position_of_openInput hopen, hover.size_eq, ← Tape.length_toBytes, Bytes.slice,
    List.drop_zero, List.take_length] at hread
  refine ⟨t, (bind_of_ok hopen _).trans ?_⟩
  rw [hover.size_eq, ← Tape.length_toBytes, hread]
  rfl

end

/-- Whatever is written, sought and flushed in whatever order, an output in memory and one in a file,
with room for any number of bytes before they are passed on, and flushed each time or not, stand
where the ledger stands and fail where it fails, which leaves no trace. When the output is closed or
given up, the file of its name reads as the ledger tells: it is as long as the largest offset that a
write of any bytes came to, and each byte is that of the last write over it, or zero. -/
theorem observe_created {s t : Storage} {name : String} {o : Output} (hplan : s.plan = .none)
    (hcreate : Storing.createOutput name s = .ok o t) (steps : List Step) (ending : Ending) :
    output.observe steps (o, t) = ledger.observe steps .empty ∧
      ∃ o' t' u v, output.after steps (o, t) = (o', t') ∧ ending.action o' t' = .ok () u ∧
        u.file? name = some (ledger.after steps .empty).content ∧
        Storing.load name u = .ok (ledger.after steps .empty).content v := by
  obtain ⟨hrefuses, hplan', hholds⟩ := holds_createOutput hcreate
  have hkeeps : Keeps name (o, t) .empty :=
    ⟨hplan'.trans hplan, fun k => by rw [hrefuses, hplan]; rfl, hholds⟩
  obtain ⟨hobserve, hafter⟩ :=
    Device.simulates (fun h => h.holds.position) (fun s h => h.step s) steps hkeeps
  obtain ⟨u, hend, huplan, hfile⟩ := hafter.ends ending
  obtain ⟨v, hload⟩ := load_of_file? huplan hfile
  exact ⟨hobserve, _, _, u, v, rfl, hend, hfile, hload⟩

def patching : List Step :=
  [.write [1, 2, 3], .seek (.current (-5)), .seek (.start 5), .write [9], .flush, .seek (.start 1),
    .write [7, 8], .sync, .seek (.fromEnd 2), .write []]

def patched : List (Bool × Nat) :=
  [(true, 3), (false, 3), (true, 5), (true, 6), (true, 6), (true, 1), (true, 3), (true, 3), (true, 8),
    (true, 8)]

def cramped : Storage := .ofBackend (.directory (.empty []) ⟨"", false, 2, true⟩)

def held : Storage := .ofBackend (.memory ∅)

theorem observe_created_patching :
    (∃ o t o' t' u v, Storing.createOutput "f" cramped = .ok o t ∧
      output.observe patching (o, t) = patched ∧ output.after patching (o, t) = (o', t') ∧
      Ending.drop.action o' t' = .ok () u ∧ Storing.load "f" u = .ok [1, 7, 8, 0, 0, 9] v) ∧
    ∃ o t o' t' u v, Storing.createOutput "f" held = .ok o t ∧
      output.observe patching (o, t) = patched ∧ output.after patching (o, t) = (o', t') ∧
      Ending.close.action o' t' = .ok () u ∧ Storing.load "f" u = .ok [1, 7, 8, 0, 0, 9] v := by
  have hobserve : ledger.observe patching .empty = patched := by decide
  have hcontent : (ledger.after patching .empty).content = [1, 7, 8, 0, 0, 9] := by decide
  rw [← hobserve, ← hcontent]
  constructor
  · have hcreated : ∃ o t, Storing.createOutput "f" cramped = .ok o t := ⟨_, _, rfl⟩
    obtain ⟨o, t, hcreate⟩ := hcreated
    obtain ⟨hseen, o', t', u, v, hafter, hend, -, hload⟩ :=
      observe_created rfl hcreate patching .drop
    exact ⟨o, t, o', t', u, v, hcreate, hseen, hafter, hend, hload⟩
  · have hcreated : ∃ o t, Storing.createOutput "f" held = .ok o t := ⟨_, _, rfl⟩
    obtain ⟨o, t, hcreate⟩ := hcreated
    obtain ⟨hseen, o', t', u, v, hafter, hend, -, hload⟩ :=
      observe_created rfl hcreate patching .close
    exact ⟨o, t, o', t', u, v, hcreate, hseen, hafter, hend, hload⟩

end Concordance.Proofs.OutputKinds
