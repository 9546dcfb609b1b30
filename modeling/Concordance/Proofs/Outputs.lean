import Concordance.Proofs.Calls

namespace Concordance.Proofs.Outputs

open Outcomes Places FileActions Frames Calls
open Storing (temporaryName)

theorem flush_of_pending_nil {g : GatheringOutput} {content : Packed} (h : g.pending = []) :
    g.flush content = (g, content) := by
  obtain ⟨capacity, flushesEach, pending, offset, position⟩ := g
  obtain rfl : pending = [] := h
  rfl

/-- Bytes join what is pending, or it is passed on first, and then they are pending or go behind. -/
theorem take_cases (g : GatheringOutput) (content : Packed) {b : Bytes} (hb : b ≠ []) :
    g.take b content = ({ g with pending := g.pending ++ b }, content) ∨
      g.take b content = ({ (g.flush content).1 with
        pending := (g.flush content).1.pending ++ b }, (g.flush content).2) ∨
      g.take b content = (g.flush content).1.put b (g.flush content).2 := by
  have hpos : 0 < b.length := List.length_pos_iff.mpr hb
  rw [GatheringOutput.take]
  by_cases hfits : b.length < g.capacity - g.pending.length
  · rw [if_pos hfits]
    exact .inl rfl
  rw [if_neg hfits]
  by_cases hflush : g.capacity - g.pending.length < b.length
  · simp only [if_pos hflush]
    split
    · exact .inr (.inr rfl)
    · exact .inr (.inl rfl)
  · simp only [if_neg hflush]
    split
    · -- the bytes fill the room exactly, so that nothing can be pending
      have hp : g.pending = [] := List.length_eq_zero_iff.mp (by omega)
      exact .inr (.inr (by rw [flush_of_pending_nil hp]))
    · exact .inl rfl

/-- What has been passed on to a file and what is pending make up what was written, and more of it
goes behind. -/
structure Follows (g : GatheringOutput) (content : Packed) (acc : Bytes) : Prop where
  gathered : content.toBytes ++ g.pending = acc
  offset : g.offset = content.size

section

variable {g : GatheringOutput} {content : Packed} {acc : Bytes}

theorem Follows.put (h : Follows g content acc) (hp : g.pending = []) (b : Bytes) :
    Follows (g.put b content).1 (g.put b content).2 (acc ++ b) ∧
      (g.put b content).1.pending = [] := by
  have hacc : content.toBytes = acc := by
    rw [← h.gathered, hp, List.append_nil]
  have hbytes : (content.overwrite g.offset b).toBytes = acc ++ b := by
    rw [Packed.toBytes_overwrite, h.offset, ← Packed.length_toBytes,
      Bytes.overwrite_end, hacc]
  refine ⟨⟨?_, ?_⟩, hp⟩
  · simp only [GatheringOutput.put, hbytes, hp, List.append_nil]
  · simp only [GatheringOutput.put]
    rw [← Packed.length_toBytes, hbytes, h.offset, ← Packed.length_toBytes, hacc,
      List.length_append]

theorem Follows.flush (h : Follows g content acc) :
    Follows (g.flush content).1 (g.flush content).2 acc ∧ (g.flush content).1.pending = [] := by
  have h' : Follows { g with pending := [] } content content.toBytes :=
    ⟨List.append_nil _, h.offset⟩
  have hput := h'.put rfl g.pending
  rw [h.gathered] at hput
  exact hput

theorem Follows.pend (h : Follows g content acc) (b : Bytes) :
    Follows { g with pending := g.pending ++ b } content (acc ++ b) :=
  ⟨by rw [← List.append_assoc, h.gathered], h.offset⟩

theorem Follows.take (h : Follows g content acc) {b : Bytes} (hb : b ≠ []) :
    Follows (g.take b content).1 (g.take b content).2 (acc ++ b) := by
  obtain ⟨hflush, hempty⟩ := h.flush
  rcases take_cases g content hb with htake | htake | htake <;> rw [htake]
  · exact h.pend b
  · exact hflush.pend b
  · exact (hflush.put hempty b).1

theorem Follows.write (h : Follows g content acc) (b : Bytes) :
    Follows (g.write b content).1 (g.write b content).2 (acc ++ b) := by
  rw [GatheringOutput.write]
  by_cases hb : b = []
  · rw [if_pos hb, hb, List.append_nil]
    exact h
  · rw [if_neg hb]
    have ht := h.take hb
    have ht' : Follows { (g.take b content).1 with position := (g.take b content).1.position +
        b.length } (g.take b content).2 (acc ++ b) := ⟨ht.gathered, ht.offset⟩
    dsimp only
    split
    · exact ht'.flush.1
    · exact ht'

end

section

variable {n : Nat} {s t : Storage} {name stem : String}

inductive Writes (n : Nat) (loc : Location) (acc : Bytes) (o : Output) (s : Storage) : Prop
  | memory {files : Files} {m : HeldOutput} (backend : s.backend = .memory files)
      (sink : o.sink = .memory m) (place : [o.name] = loc) (present : files[o.name]? ≠ none)
      (opened : m.closed = false) (buffer : m.buffer.toBytes = acc)
      (position : m.position = acc.length)
  | file {fs : FileSystem} {d : DirectorySettings} {k : Nat} {g : GatheringOutput}
      (backend : s.backend = .directory fs d) (sink : o.sink = .file k g)
      (number : fs.node? loc = some (.file k))
      (alone : ∀ l, fs.node? l = some (.file k) → l = loc) (later : n ≤ k)
      (follows : Follows g (fs.content k) acc)

def Willing (o : Output) : Prop := ∀ k, o.refuses k = false

def Settled (o : Output) : Prop :=
  match o.sink with
  | .memory m => m.closed = true
  | .file _ g => g.pending = []

theorem setContent_of_directory {fs : FileSystem} {d : DirectorySettings}
    (hb : s.backend = .directory fs d) (k : Nat) (p : Packed) :
    s.setContent k p = { s with backend := .directory (fs.setContent k p) d } := by
  rw [Storage.setContent, hb]

theorem plan_setContent (s : Storage) (k : Nat) (p : Packed) :
    (s.setContent k p).plan = s.plan := by
  rw [Storage.setContent]
  split <;> rfl

theorem setContent_spec {fs : FileSystem} {d : DirectorySettings} {k : Nat} {g : GatheringOutput}
    {loc : Location} {acc : Bytes} {p : Packed} (hb : s.backend = .directory fs d)
    (hk : fs.node? loc = some (.file k)) (halone : ∀ l, fs.node? l = some (.file k) → l = loc)
    (hlater : n ≤ k) (hf : Follows g p acc) (o : Output) :
    Changes n {loc} s (s.setContent k p) ∧ fileAt (s.setContent k p) loc = some p.toBytes ∧
      Writes n loc acc { o with sink := .file k g } (s.setContent k p) := by
  rw [setContent_of_directory hb]
  refine ⟨changes_directory hb rfl rfl (sameWays_setContent k p) (fun l hl => ?_) ?_
    fun j hj => ?_, (heldIn_setContent hk halone p loc).trans (if_pos rfl),
    .file rfl rfl hk halone hlater
      ((content_setContent_self hk p).symm ▸ hf)⟩
  · exact (heldIn_setContent hk halone p l).trans (if_neg hl)
  · exact Nat.le_of_eq (Array.size_setIfInBounds ..).symm
  · rw [content_setContent, if_neg]
    rintro ⟨rfl, -⟩
    omega

theorem createOutput_memory {files : Files} (hb : s.backend = .memory files)
    (hnone : files[name]? = none) (hc : Storing.call .create name s = .ok () (counted s)) :
    Storing.createOutput name s =
      .ok ⟨name, .memory .opened, s.plan.refusesWrite s.clock name, 0⟩
        { counted s with backend := .memory (files.insert name .empty) } := by
  have hcontains : files.contains name = false := by
    rw [← Std.ExtTreeMap.isSome_getElem?_eq_contains, hnone]
    rfl
  rw [Storing.createOutput, get_bind, bind_of_ok hc, get_bind]
  simp only [counted, hb, hcontains]
  rfl

theorem createOutput_directory {fs : FileSystem} {d : DirectorySettings}
    (hb : s.backend = .directory fs d)
    (hc : Storing.call .create name s = .ok () (counted s)) :
    Storing.createOutput name s = match Filing.create (Path.join d.path name) fs with
      | .ok k fs' =>
          .ok ⟨name, .file k (.opened d.bufferSize d.syncWrites),
            s.plan.refusesWrite s.clock name, 0⟩ { counted s with backend := .directory fs' d }
      | .error e fs' =>
          .error (.storage (.system e)) { counted s with backend := .directory fs' d } := by
  rw [Storing.createOutput, get_bind, bind_of_ok hc, get_bind]
  simp only [counted, hb]
  cases hm : Filing.create (Path.join d.path name) fs with
  | ok k fs' => exact bind_of_ok (by rw [Storing.filing, hm]) _
  | error e fs' => exact bind_of_error (by rw [Storing.filing, hm]; rfl) _

theorem createTemporary_eq (stem : String) (s : Storage) :
    Crowded s (.createTemporary stem) ∧
        Storing.createTemporary stem s = .error (.storage (.noTemporaryName stem)) s ∨
      ∃ i, s.isPresent (temporaryName stem i) = false ∧ Storing.createTemporary stem s =
        (do return (temporaryName stem i, ← Storing.createOutput (temporaryName stem i))) s := by
  rw [Storing.createTemporary, get_bind]
  generalize hfind : (List.range Storing.temporaryLimit).find?
    (fun i => !s.isPresent (temporaryName stem i)) = found
  cases found with
  | none =>
      have htaken : ∀ i < Storing.temporaryLimit, s.isPresent (temporaryName stem i) = true := by
        simpa using hfind
      exact .inl ⟨htaken, rfl⟩
  | some i => exact .inr ⟨i, by simpa using List.find?_some hfind, rfl⟩

theorem getElem?_of_not_isPresent {files : Files} (hb : s.backend = .memory files)
    (h : s.isPresent name = false) : files[name]? = none := by
  have hfalse : files.contains name = false := by
    rw [Storage.isPresent, hb] at h
    exact h
  rw [← Option.not_isSome_iff_eq_none, Std.ExtTreeMap.isSome_getElem?_eq_contains, hfalse]
  exact Bool.false_ne_true

theorem createTemporary_memory {files : Files} {i : Nat} (n : Nat)
    (hb : s.backend = .memory files)
    (hc : Storing.call .create (temporaryName stem i) s = .ok () (counted s))
    (hnone : files[temporaryName stem i]? = none)
    (heq : Storing.createTemporary stem s =
      (do return (temporaryName stem i, ← Storing.createOutput (temporaryName stem i))) s) :
    ∃ o t, (Request.createTemporary stem).answer s = (.ok (temporaryName stem i, o), t) ∧
      Changes n {[temporaryName stem i]} s t ∧ Writes n [temporaryName stem i] [] o t ∧
      (Reliable ∅ s → Willing o) := by
  rw [bind_of_ok (createOutput_memory hb hnone hc)] at heq
  have hperform : (Request.createTemporary stem).perform s = _ := heq
  refine ⟨_, _, answer_of_ok hperform, changes_memory hb rfl rfl fun m hm => ?_,
    .memory rfl rfl rfl ?_ rfl rfl rfl, fun hs k => hs.writes _ _ k⟩
  · rw [getElem?_insert, if_neg]
    rintro rfl
    exact hm rfl
  · rw [getElem?_insert, if_pos rfl]
    exact Option.some_ne_none _

theorem writes_addFile {fs : FileSystem} {d : DirectorySettings} {loc : Location} {o : Output}
    (hb : t.backend = .directory (fs.addFile loc).2 d) (hnone : fs.node? loc = none)
    (hn : n ≤ fs.contents.size) {size : Nat} {flushes : Bool}
    (ho : o.sink = .file (fs.addFile loc).1 (.opened size flushes)) : Writes n loc [] o t := by
  have hempty : (fs.addFile loc).2.content (fs.addFile loc).1 = .empty :=
    (content_addFile _).trans (content_size fs)
  refine .file hb ho ?_ (fun l hl => ?_) hn ?_
  · exact (node?_addFile (ne_nil_of_none hnone) loc).trans (if_pos rfl)
  · rw [node?_addFile (ne_nil_of_none hnone)] at hl
    by_contra hne
    rw [if_neg hne] at hl
    exact absurd (number_lt hl) (Nat.lt_irrefl _)
  · exact ⟨by rw [hempty]; rfl, by rw [hempty]; rfl⟩

theorem createTemporary_directory {fs : FileSystem} {d : DirectorySettings} {i : Nat}
    (hn : n ≤ fs.contents.size) (hb : s.backend = .directory fs d)
    (hc : Storing.call .create (temporaryName stem i) s = .ok () (counted s))
    (habsent : fs.isPresent (Path.join d.path (temporaryName stem i)) = false)
    (heq : Storing.createTemporary stem s =
      (do return (temporaryName stem i, ← Storing.createOutput (temporaryName stem i))) s) :
    Stops n (.createTemporary stem) s ∨
      ∃ loc o t, (Request.createTemporary stem).answer s = (.ok (temporaryName stem i, o), t) ∧
        placeIn fs (Path.join d.path (temporaryName stem i)) = some loc ∧ fs.node? loc = none ∧
        Changes n {loc} s t ∧ Writes n loc [] o t := by
  have hcreate := createOutput_directory hb hc
  rcases create_cases habsent with ⟨e, he⟩ | ⟨loc, hloc, hnone, hok⟩
  · left
    rw [he] at hcreate
    rw [bind_of_error hcreate] at heq
    have hperform : (Request.createTemporary stem).perform s = _ := heq
    exact stops_of_directory hb (answer_of_error hperform) (changes_of_backend hb.symm rfl)
  · right
    rw [hok] at hcreate
    rw [bind_of_ok hcreate] at heq
    have hperform : (Request.createTemporary stem).perform s = _ := heq
    refine ⟨loc, _, _, answer_of_ok hperform, hloc, hnone, changes_directory hb rfl rfl
      (sameWays_addFile hnone) (fun l hl => ?_) ?_ fun k _ => content_addFile k,
      writes_addFile rfl hnone hn rfl⟩
    · exact (heldIn_addFile hnone l).trans (if_neg hl)
    · exact Nat.le_of_lt (by simp [FileSystem.addFile])

theorem createTemporary_cases (hn : n ≤ fileCount s) (stem : String) :
    Stops n (.createTemporary stem) s ∨
      ∃ i loc o t, (Request.createTemporary stem).answer s =
          (.ok (temporaryName stem i, o), t) ∧ place? s (temporaryName stem i) = some loc ∧
        fileAt s loc = none ∧ Changes n {loc} s t ∧ Writes n loc [] o t ∧
        (Reliable ∅ s → Willing o) := by
  have hperform : (Request.createTemporary stem).perform s = Storing.createTemporary stem s := rfl
  rcases createTemporary_eq stem s with ⟨hcrowded, heq⟩ | ⟨i, habsent, heq⟩
  · exact .inl ⟨_, _, answer_of_error (hperform.trans heq), Changes.refl s, fun _ => hcrowded⟩
  rcases call_cases .create (temporaryName stem i) s with hc | ⟨hr, hc⟩
  · cases hb : s.backend with
    | memory files =>
        right
        have hnone := getElem?_of_not_isPresent hb habsent
        obtain ⟨o, t, ha, hchanges, hwrites⟩ := createTemporary_memory n hb hc hnone heq
        refine ⟨i, _, o, t, ha, by rw [place?, hb], ?_, hchanges, hwrites⟩
        rw [fileAt, hb]
        exact congrArg (Option.map Packed.toBytes) hnone
    | directory fs d =>
        rw [Storage.isPresent, hb] at habsent
        rw [fileCount, hb] at hn
        apply (createTemporary_directory hn hb hc habsent heq).imp_right
        rintro ⟨loc, o, t, ha, hloc, hnone, hchanges, hwrites⟩
        refine ⟨i, loc, o, t, ha, by rw [place?, hb]; exact hloc, ?_, hchanges, hwrites,
          fun hf => absurd hb hf.not_directory⟩
        simp only [fileAt, hb, heldIn, hnone]
  · left
    have hcreate : Storing.createOutput (temporaryName stem i) s = _ := bind_of_error hc _
    rw [bind_of_error hcreate] at heq
    exact stops_of_refused n (answer_of_error (hperform.trans heq)) hr rfl

variable {loc : Location} {acc : Bytes} {o : Output}

theorem answer_write (o : Output) (b : Bytes) (s : Storage) : (Request.write o b).answer s =
    match Writing.write b (o, s) with
    | .ok () (o, t) => (.ok (.ok (), o), t)
    | .error e (o, t) => (.ok (.error e, o), t) := by
  rw [Request.answer, Request.perform, Storing.onOutput]
  cases Writing.write b (o, s) <;> rfl

theorem write_nil (o : Output) (s : Storage) : Writing.write [] (o, s) = .ok () (o, s) := rfl

theorem write_refused {b : Bytes} (hb : b ≠ []) (hr : o.refuses o.writes = true) :
    Writing.write b (o, s) = .error (.io .writeRefused) (o, s) := by
  rw [Writing.write, get_bind]
  dsimp only
  rw [if_pos hb, if_pos hr]
  rfl

theorem write_memory {b : Bytes} (hb : b ≠ []) (hr : ¬ o.refuses o.writes = true)
    {m : HeldOutput} (hs : o.sink = .memory m) (hopen : m.closed = false) :
    Writing.write b (o, s) = .ok () ({ o with
      sink := .memory { m with buffer := m.buffer.overwrite m.position b
                               position := m.position + b.length }
      writes := o.writes + 1 }, s) := by
  have hm : m.write b = .ok { m with buffer := m.buffer.overwrite m.position b
                                     position := m.position + b.length } := by
    rw [HeldOutput.write, if_neg hb, if_neg (by simp [hopen])]
  rw [Writing.write, get_bind]
  dsimp only
  rw [if_pos hb, if_neg hr]
  simp only [hs, hm]
  rfl

theorem write_file {b : Bytes} (hb : b ≠ []) (hr : ¬ o.refuses o.writes = true) {k : Nat}
    {g : GatheringOutput} (hs : o.sink = .file k g) : Writing.write b (o, s) =
      .ok () ({ o with sink := .file k (g.write b (s.content k)).1, writes := o.writes + 1 },
        s.setContent k (g.write b (s.content k)).2) := by
  rw [Writing.write, get_bind]
  dsimp only
  rw [if_pos hb, if_neg hr]
  simp only [hs]
  rfl

theorem Writes.write (h : Writes n loc acc o s) (b : Bytes) :
    ∃ x o' t, (Request.write o b).answer s = (.ok (x, o'), t) ∧ Changes n {loc} s t ∧
      (x = .ok () ∧ Writes n loc (acc ++ b) o' t ∧ (Willing o → Willing o') ∨
        x ≠ .ok () ∧ ¬ Willing o ∧ Writes n loc acc o' t) := by
  rw [answer_write]
  by_cases hb : b = []
  · rw [hb, List.append_nil, write_nil]
    exact ⟨.ok (), o, s, rfl, Changes.refl s, .inl ⟨rfl, h, fun hw => hw⟩⟩
  by_cases hr : o.refuses o.writes = true
  · rw [write_refused hb hr]
    exact ⟨_, o, s, rfl, Changes.refl s, .inr ⟨by simp, fun hw => by simp [hw o.writes] at hr, h⟩⟩
  cases h with
  | memory hback hs hplace hpresent hopen hbuffer hpos =>
      rename_i files m
      rw [write_memory hb hr hs hopen]
      refine ⟨_, _, s, rfl, Changes.refl s,
        .inl ⟨rfl, .memory hback rfl hplace hpresent hopen ?_ ?_, fun hw => hw⟩⟩
      · rw [Packed.toBytes_overwrite, hbuffer, hpos, Bytes.overwrite_end]
      · rw [List.length_append, hpos]
  | file hback hs hk halone hlater hfollows =>
      rw [write_file hb hr hs, content_of_directory hback]
      obtain ⟨hchanges, -, hwrites⟩ := setContent_spec hback hk halone hlater (hfollows.write b)
        { o with writes := o.writes + 1 }
      exact ⟨_, _, _, rfl, hchanges, .inl ⟨rfl, hwrites, fun hw => hw⟩⟩

theorem answer_flush (o : Output) (s : Storage) : (Request.flush o).answer s =
    match Writing.flush (o, s) with
    | .ok () (o, t) => (.ok (.ok (), o), t)
    | .error e (o, t) => (.ok (.error e, o), t) := by
  rw [Request.answer, Request.perform, Storing.onOutput]
  cases Writing.flush (o, s) <;> rfl

theorem flush_memory {m : HeldOutput} (hs : o.sink = .memory m) :
    Writing.flush (o, s) = .ok () (o, s) := by
  change EStateM.Result.ok () (match o.sink with | .memory _ => (o, s) | .file k g => _) = _
  rw [hs]

theorem flush_file {k : Nat} {g : GatheringOutput} (hs : o.sink = .file k g) :
    Writing.flush (o, s) = .ok () ({ o with sink := .file k (g.flush (s.content k)).1 },
      s.setContent k (g.flush (s.content k)).2) := by
  change EStateM.Result.ok () (match o.sink with
    | .memory _ => (o, s)
    | .file k g => ({ o with sink := .file k (g.flush (s.content k)).1 },
        s.setContent k (g.flush (s.content k)).2)) = _
  rw [hs]

theorem Writes.flush (h : Writes n loc acc o s) : ∃ o' t,
    (Request.flush o).answer s = (.ok (.ok (), o'), t) ∧ Changes n {loc} s t ∧
      Writes n loc acc o' t := by
  rw [answer_flush]
  cases h with
  | memory hback hs hplace hpresent hopen hbuffer hpos =>
      rw [flush_memory hs]
      exact ⟨o, s, rfl, Changes.refl s, .memory hback hs hplace hpresent hopen hbuffer hpos⟩
  | file hback hs hk halone hlater hfollows =>
      rw [flush_file hs, content_of_directory hback]
      obtain ⟨hchanges, -, hwrites⟩ := setContent_spec hback hk halone hlater hfollows.flush.1 o
      exact ⟨_, _, rfl, hchanges, hwrites⟩

theorem answer_close (o : Output) (s : Storage) : (Request.close o).answer s =
    match Writing.close (o, s) with
    | .ok () (o, t) => (.ok (.ok (), o), t)
    | .error e (o, t) => (.ok (.error e, o), t) := by
  rw [Request.answer, Request.perform, Storing.onOutput]
  cases Writing.close (o, s) <;> rfl

theorem answer_drop (o : Output) (s : Storage) :
    (Request.drop o).answer s = (.ok (), (stateOf (Writing.close (o, s))).2) := by
  apply answer_of_ok
  change Storing.dropOutput o s = _
  rw [Storing.dropOutput]
  cases hc : Writing.close (o, s) with
  | ok a x =>
      have hclose : Storing.onOutput o Writing.close s = .ok (.ok a, x.1) x.2 := by
        rw [Storing.onOutput, hc]
      exact bind_of_ok hclose _
  | error e x =>
      have hclose : Storing.onOutput o Writing.close s = .ok (.error e, x.1) x.2 := by
        rw [Storing.onOutput, hc]
      exact bind_of_ok hclose _

theorem close_memory {files : Files} {m : HeldOutput} (hb : s.backend = .memory files)
    (hs : o.sink = .memory m) (hopen : m.closed = false) : Writing.close (o, s) = .ok ()
      ({ o with sink := .memory { m with closed := true, buffer := .empty } },
        { s with backend := .memory (files.insert o.name m.buffer) }) := by
  rw [Writing.close, get_bind]
  simp only [hs, hb, hopen]
  rfl

theorem close_closed {m : HeldOutput} (hs : o.sink = .memory m) (hclosed : m.closed = true) :
    Writing.close (o, s) = .ok () (o, s) := by
  rw [Writing.close, get_bind]
  cases hb : s.backend with
  | memory files =>
      simp only [hs, hb, hclosed]
      rfl
  | directory fs d =>
      simp only [hs, hb]
      exact flush_memory hs

theorem close_file {k : Nat} {g : GatheringOutput} (hs : o.sink = .file k g) :
    Writing.close (o, s) = Writing.flush (o, s) := by
  rw [Writing.close, get_bind]
  simp only [hs]

theorem Writes.close_spec (h : Writes n loc acc o s) : ∃ o' t,
    Writing.close (o, s) = .ok () (o', t) ∧ Changes n {loc} s t ∧ fileAt t loc = some acc ∧
      Settled o' := by
  cases h with
  | memory hback hs hplace hpresent hopen hbuffer hpos =>
      rename_i files m
      refine ⟨_, _, close_memory hback hs hopen, changes_memory hback rfl rfl fun name hname => ?_,
        ?_, rfl⟩
      · rw [getElem?_insert, if_neg]
        rintro rfl
        exact hname hplace
      · rw [← hplace, ← hbuffer]
        change (files.insert o.name m.buffer)[o.name]?.map Packed.toBytes = _
        rw [getElem?_insert, if_pos rfl]
        rfl
  | file hback hs hk halone hlater hfollows =>
      rename_i fs d k g
      obtain ⟨hchanges, hfile, -⟩ := setContent_spec hback hk halone hlater hfollows.flush.1 o
      have hgathered := hfollows.flush.1.gathered
      rw [hfollows.flush.2, List.append_nil] at hgathered
      rw [hgathered] at hfile
      exact ⟨{ o with sink := .file k (g.flush (fs.content k)).1 }, _,
        by rw [close_file hs, flush_file hs, content_of_directory hback], hchanges, hfile,
        hfollows.flush.2⟩

theorem Writes.close (h : Writes n loc acc o s) : ∃ o' t,
    (Request.close o).answer s = (.ok (.ok (), o'), t) ∧ Changes n {loc} s t ∧
      fileAt t loc = some acc ∧ Settled o' := by
  obtain ⟨o', t, hclose, hrest⟩ := h.close_spec
  exact ⟨o', t, by rw [answer_close, hclose], hrest⟩

theorem Writes.drop (h : Writes n loc acc o s) : ∃ t,
    (Request.drop o).answer s = (.ok (), t) ∧ Changes n {loc} s t ∧ fileAt t loc = some acc := by
  obtain ⟨o', t, hclose, hchanges, hfile, -⟩ := h.close_spec
  exact ⟨t, by rw [answer_drop, hclose]; rfl, hchanges, hfile⟩

theorem setContent_content (s : Storage) (k : Nat) : s.setContent k (s.content k) = s := by
  obtain ⟨backend, plan, clock, warnings⟩ := s
  cases backend with
  | memory files => rfl
  | directory fs d =>
      obtain ⟨entries, contents, workingDirectory, numbered⟩ := fs
      have hsame : contents.setIfInBounds k (contents.getD k .empty) = contents := by
        apply Array.ext_getElem?
        intro i
        rw [Array.getElem?_setIfInBounds, Array.getD_eq_getD_getElem?]
        split
        · rename_i heq
          split
          · rename_i hk
            rw [← heq, Array.getElem?_eq_getElem hk]
            rfl
          · rename_i hk
            rw [← heq, Array.getElem?_eq_none (Nat.le_of_not_lt hk)]
        · rfl
      simp only [Storage.setContent, Storage.content, FileSystem.setContent, FileSystem.content,
        hsame]

theorem drop_of_settled (n : Nat) (s : Storage) (h : Settled o) : ∃ t,
    (Request.drop o).answer s = (.ok (), t) ∧ Changes n ∅ s t := by
  rw [answer_drop]
  cases hs : o.sink with
  | memory m =>
      rw [Settled, hs] at h
      rw [close_closed hs h]
      exact ⟨s, rfl, Changes.refl s⟩
  | file k g =>
      rw [Settled, hs] at h
      rw [close_file hs, flush_file hs]
      rw [flush_of_pending_nil h, setContent_content]
      exact ⟨s, rfl, Changes.refl s⟩

end

end Concordance.Proofs.Outputs
