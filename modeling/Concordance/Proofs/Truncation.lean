import Concordance.Proofs.IndexFiles
import Concordance.Proofs.StoreLayout

namespace Concordance.Proofs.Truncation

open Analysis (Analyzer AnalyzerConfig)
open BlockStore (Record TableRef View bucketCount headerSize make)
open Index Positioned Cursors Outcomes StoreImage StoreReading StoreLayout StoreRoundTrip IndexImage
  IndexReading IndexFiles BuildOrder Ranking

variable {p : Tape} {rs : List Record}

theorem lies_of_append {part lost chunk : Bytes} {pos : Nat} (h : Lies (part ++ lost) pos chunk)
    (hpart : pos + chunk.length ≤ part.length) : Lies part pos chunk := by
  obtain ⟨before, behind, heq, rfl⟩ := h
  have htake := congrArg (List.take part.length) heq
  rw [List.take_left, List.take_append, List.take_append,
    List.take_of_length_le (by omega : before.length ≤ part.length),
    List.take_of_length_le (by omega : chunk.length ≤ part.length - before.length)] at htake
  exact ⟨before, _, htake, rfl⟩

theorem readTables_outside {length pos i : Nat} (bucket : Nat) {ts : List TableRef} {t : TableRef}
    {r : Reader} (hr : At p r pos) (hl : Lies p.toBytes pos (ts.flatMap refImage))
    (hfit : ∀ t ∈ ts, headerSize ≤ t.start ∧ t.stop < UInt32.size) (ht : ts[i]? = some t)
    (hbefore : ∀ u ∈ ts.take i, u.stop ≤ length) (hout : length < t.stop) :
    ∃ r', View.readTables length bucket ts.length r =
      .error (.format (.tableOutside (bucket + i) t.start t.stop)) r' := by
  induction ts generalizing bucket pos i r with
  | nil => simp at ht
  | cons u ts ih =>
      obtain ⟨⟨hstart, hstop⟩, hfit⟩ := List.forall_mem_cons.mp hfit
      have hstop8 : u.stop = u.start + u.slots * 8 := rfl
      have hstart32 : (UInt32.ofNat u.start).toNat = u.start :=
        UInt32.toNat_ofNat_of_lt' (by omega)
      have hslots32 : (UInt32.ofNat u.slots).toNat = u.slots :=
        UInt32.toNat_ofNat_of_lt' (by omega)
      rw [List.flatMap_cons] at hl
      obtain ⟨r', hread, hr'⟩ := hr.pair hl.left
      rw [List.length_cons, View.readTables, bind_of_ok hread]
      simp only [hstart32, hslots32]
      cases i with
      | zero =>
          obtain rfl : u = t := by simpa using ht
          rw [if_pos (.inr hout)]
          exact ⟨r', rfl⟩
      | succ i =>
          rw [List.take_succ_cons] at hbefore
          obtain ⟨hu, hbefore⟩ := List.forall_mem_cons.mp hbefore
          have hin : ¬ (u.start < headerSize ∨ length < u.stop) := by omega
          rw [if_neg hin]
          obtain ⟨r'', hrest⟩ := ih (bucket + 1) hr' hl.right hfit (by simpa using ht) hbefore
          refine ⟨r'', ?_⟩
          rw [Nat.add_assoc, Nat.add_comm 1] at hrest
          exact bind_of_error hrest _

theorem ofBytes_short {part : Bytes} (h : part.length < headerSize) :
    View.ofBytes part = .error (.format (.storeTruncated part.length)) := by
  rw [View.ofBytes, View.openAt, View.ofInput, if_pos h]
  rfl

theorem head_mem_refs {i : Nat} (hi : i < bucketCount) :
    (refs rs)[i]? = some (head rs i) ∧ head rs i ∈ refs rs := by
  have hget : (refs rs)[i]? = some (head rs i) := by
    rw [refs_eq, List.getElem?_map, List.getElem?_range hi, Option.map_some]
  exact ⟨hget, List.mem_of_getElem? hget⟩

/-- Of the buckets whose tables are cut there is a first one, since the last table ends with the
file. -/
theorem exists_first_cut {n : Nat} (h : n < size rs) : ∃ i < bucketCount,
    (∀ j < i, (head rs j).stop ≤ n) ∧ n < (head rs i).stop := by
  have hcut : ∃ i, n < (head rs i).stop := ⟨255, (stop_head_last rs).symm ▸ h⟩
  have hfirst : Nat.find hcut ≤ 255 := Nat.find_min' hcut ((stop_head_last rs).symm ▸ h)
  exact ⟨Nat.find hcut, Nat.lt_succ_of_le hfirst,
    fun j hj => Nat.le_of_not_lt (Nat.find_min hcut hj), Nat.find_spec hcut⟩

theorem ofBytes_cut {part lost : Bytes} (h : size rs < UInt32.size)
    (hpart : part ++ lost = image rs) (hlong : headerSize ≤ part.length) {i : Nat}
    (hi : i < bucketCount) (hbefore : ∀ j < i, (head rs j).stop ≤ part.length)
    (hout : part.length < (head rs i).stop) : View.ofBytes part =
      .error (.format (.tableOutside i (head rs i).start (head rs i).stop)) := by
  have hrefs : Lies (Tape.ofBytes part).toBytes 0 ((refs rs).flatMap refImage) := by
    have hwhole := lies_refs rs
    rw [← hpart] at hwhole
    rw [Tape.toBytes_ofBytes]
    apply lies_of_append hwhole
    rw [length_flatMap_refImage, length_refs, Nat.zero_add]
    exact hlong
  obtain ⟨j, hj, hover, hpos⟩ := (over_ofBytes part).seek (n := 0) (by decide)
  have hat : At (.ofBytes part) (.ofInput j) 0 := ⟨hover, hpos, rfl⟩
  obtain ⟨r, hseek, hr⟩ := hat.seek (n := 0) (by decide)
  have htake : ∀ u ∈ (refs rs).take i, u.stop ≤ part.length := by
    intro u hu
    obtain ⟨k, hk, rfl⟩ := List.mem_take_iff_getElem.mp hu
    have hki : k < i := (Nat.lt_min.mp hk).1
    obtain ⟨_, hget⟩ := List.getElem?_eq_some_iff.mp (head_mem_refs (Nat.lt_trans hki hi)).1
    rw [hget]
    exact hbefore k hki
  obtain ⟨r', hread⟩ := readTables_outside 0 hr hrefs
    (fun t ht => ⟨(mem_refs ht).1, (mem_refs ht).2.trans_lt h⟩) (head_mem_refs hi).1 htake hout
  rw [length_refs, Nat.zero_add] at hread
  rw [View.ofBytes, View.openAt, View.ofInput, if_neg (Nat.not_lt.mpr hlong)]
  simp only [hj, ok_bind, bind_of_ok hseek, hread]
  rfl

theorem ofBytes_truncated {file : Bytes} (c : AnalyzerConfig) (h : file.length < Header.size) :
    Searcher.ofBytes file c = .error (.format (.indexTruncated file.length)) := by
  have hsize : (Input.ofBytes file).size = file.length := by
    rw [(over_ofBytes file).size_eq, Tape.size_ofBytes]
  rw [Searcher.ofBytes, Searcher.ofInput, hsize, if_pos h]
  rfl

theorem ofBytes_mislength {file : Bytes} {h : Header} (c : AnalyzerConfig)
    (hlong : Header.size ≤ file.length) (hread : Header.decode (file.take Header.size) = .ok h)
    (hlength : h.fileLength ≠ file.length) : Searcher.ofBytes file c =
      .error (.format (.indexLength h.fileLength file.length)) := by
  have hsize : (Tape.ofBytes file).size = file.length := Tape.size_ofBytes file
  have hover := over_ofBytes file
  obtain ⟨j, hj, hover', hpos⟩ := hover.seek (n := 0) (by decide)
  obtain ⟨k, hk, hover'', -⟩ := hover'.readExact Header.size
  rw [hpos, hsize, if_pos (by omega), Tape.toBytes_ofBytes, Bytes.slice, List.drop_zero] at hk
  have hkind : k.size = file.length := hover''.size_eq.trans hsize
  have hfile : (Input.ofBytes file).size = file.length := hover.size_eq.trans hsize
  rw [Searcher.ofBytes, Searcher.ofInput, hfile, if_neg (Nat.not_lt.mpr hlong)]
  simp only [hj, hk, ok_bind, hread, mapError_ok, hkind, if_pos hlength]
  rfl

theorem ofBytes_part {part lost : Bytes} (h : size rs < UInt32.size)
    (hpart : part ++ lost = image rs) (hlost : lost ≠ []) (hlong : headerSize ≤ part.length) :
    ∃ i < bucketCount, (∀ j < i, (head rs j).stop ≤ part.length) ∧
      part.length < (head rs i).stop ∧ View.ofBytes part =
        .error (.format (.tableOutside i (head rs i).start (head rs i).stop)) := by
  have hpos : 0 < lost.length := List.length_pos_iff.mpr hlost
  have hcut : part.length < size rs := by
    rw [← length_image, ← hpart, List.length_append]
    omega
  obtain ⟨i, hi, hbefore, hout⟩ := exists_first_cut hcut
  exact ⟨i, hi, hbefore, hout, ofBytes_cut h hpart hlong hi hbefore hout⟩

section

variable {b : Builder} {file : Bytes}

theorem ofBytes_other_length (c : AnalyzerConfig) (hd : size b.documentRecords < UInt32.size)
    (hw : size b.wordRecords < UInt32.size) (hlong : Header.size ≤ file.length)
    (htake : file.take Header.size = (parts b).flatten.take Header.size)
    (hlength : (parts b).flatten.length ≠ file.length) : Searcher.ofBytes file c =
      .error (.format (.indexLength (parts b).flatten.length file.length)) := by
  have hfile : (headerOf b).fileLength = (parts b).flatten.length := by
    rw [fileLength_headerOf b hd hw, length_parts]
  rw [← hfile] at hlength ⊢
  exact ofBytes_mislength c hlong (htake ▸ decode_parts b) hlength

theorem ofBytes_part_index {lost : Bytes} (c : AnalyzerConfig)
    (hd : size b.documentRecords < UInt32.size) (hw : size b.wordRecords < UInt32.size)
    (hfile : file ++ lost = (parts b).flatten) (hlost : lost ≠ []) : Searcher.ofBytes file c =
      if file.length < Header.size then .error (.format (.indexTruncated file.length))
      else .error (.format (.indexLength (parts b).flatten.length file.length)) := by
  have hpos : 0 < lost.length := List.length_pos_iff.mpr hlost
  split
  · rename_i hshort
    exact ofBytes_truncated c hshort
  · rename_i hlong
    have htake : file.take Header.size = (file ++ lost).take Header.size :=
      (List.take_append_of_le_length (Nat.le_of_not_lt hlong)).symm
    apply ofBytes_other_length c hd hw (Nat.le_of_not_lt hlong) (hfile ▸ htake)
    rw [← hfile, List.length_append]
    omega

theorem ofBytes_more {more : Bytes} (c : AnalyzerConfig)
    (hd : size b.documentRecords < UInt32.size) (hw : size b.wordRecords < UInt32.size)
    (hmore : more ≠ []) : Searcher.ofBytes ((parts b).flatten ++ more) c =
      .error (.format (.indexLength (parts b).flatten.length
        ((parts b).flatten ++ more).length)) := by
  have hpos : 0 < more.length := List.length_pos_iff.mpr hmore
  have hlong : Header.size ≤ (parts b).flatten.length := by
    rw [length_parts, fileSize, Nat.add_assoc]
    exact Nat.le_add_right _ _
  apply ofBytes_other_length c hd hw
  · rw [List.length_append]
    omega
  · exact List.take_append_of_le_length hlong
  · rw [List.length_append]
    omega

end

/-- A store that lost bytes at its end is refused: for its length if its header is not whole, else
for the first table that ends behind it. An index that lost bytes or got some is refused for its
length. Whole they open. -/
theorem truncation_refused (c : AnalyzerConfig) :
    (∀ rs file summary, make rs = .ok (file, summary) →
      (∃ v, View.ofBytes file = .ok v) ∧
      ∀ part lost, part ++ lost = file → lost ≠ [] →
        (part.length < 2048 → View.ofBytes part = .error (.format (.storeTruncated part.length))) ∧
        (2048 ≤ part.length → ∃ i < 256, (∀ j < i, (head rs j).stop ≤ part.length) ∧
          part.length < (head rs i).stop ∧ View.ofBytes part =
            .error (.format (.tableOutside i (head rs i).start (head rs i).stop)))) ∧
    ∀ calls chunks summary,
      (offered offer calls (Builder.ofConfig c)).finish = .ok (chunks, summary) →
      (∃ s, Searcher.ofBytes chunks.flatten c = .ok s) ∧
      (∀ part lost, part ++ lost = chunks.flatten → lost ≠ [] → Searcher.ofBytes part c =
        if part.length < 4096 then .error (.format (.indexTruncated part.length))
        else .error (.format (.indexLength chunks.flatten.length part.length))) ∧
      ∀ more, more ≠ [] → Searcher.ofBytes (chunks.flatten ++ more) c =
        .error (.format (.indexLength chunks.flatten.length (chunks.flatten ++ more).length)) := by
  constructor
  · intro rs file summary hmake
    obtain ⟨hsmall, hout⟩ := (make_eq_ok_iff rs _).mp hmake
    obtain ⟨rfl, -⟩ := Prod.mk.inj hout
    obtain ⟨v, hopen, -⟩ := ofBytes_image hsmall
    exact ⟨⟨v, hopen⟩, fun part lost hpart hlost =>
      ⟨ofBytes_short, ofBytes_part hsmall hpart hlost⟩⟩
  · intro calls chunks summary hfinish
    obtain ⟨⟨hd, hw⟩, hout⟩ := (finish_eq_ok_iff _ _).mp hfinish
    obtain ⟨rfl, -⟩ := Prod.mk.inj hout
    obtain ⟨-, htaken⟩ := selects_offer.run (taken_ofConfig c) calls
    obtain ⟨s, hopen, -⟩ := IndexReading.ofInput_spec (over_ofBytes (parts _).flatten)
      (Tape.toBytes_ofBytes _) hd hw htaken.analyzer
    exact ⟨⟨s, hopen⟩, fun part lost => ofBytes_part_index c hd hw,
      fun more => ofBytes_more c hd hw⟩

theorem truncation_refused_short :
    (∃ file summary, make Lookups.collision = .ok (file, summary) ∧ file.length = 2128 ∧
      View.ofBytes (file.take 2047) = .error (.format (.storeTruncated 2047)) ∧
      ∃ i start, View.ofBytes file.dropLast = .error (.format (.tableOutside i start 2128))) ∧
    ∃ chunks summary, (offered offer shortCalls (Builder.ofConfig {})).finish =
        .ok (chunks, summary) ∧
      Searcher.ofBytes (chunks.flatten.take 4095) {} = .error (.format (.indexTruncated 4095)) ∧
      Searcher.ofBytes (chunks.flatten ++ [0]) {} = .error (.format (.indexLength
        chunks.flatten.length (chunks.flatten ++ [0]).length)) := by
  obtain ⟨hstore, hindex⟩ := truncation_refused {}
  constructor
  · have hmake : make Lookups.collision = .ok (image _, ⟨3, 2128⟩) := make_of_lt (by decide)
    have hlength : (image Lookups.collision).length = 2128 := length_image _
    obtain ⟨-, hcut⟩ := hstore _ _ _ hmake
    have hlost : ∀ n < 2128, (image Lookups.collision).drop n ≠ [] := by
      intro n hn hnil
      have hle := List.drop_eq_nil_iff.mp hnil
      omega
    have hpart : ∀ n ≤ 2128, ((image Lookups.collision).take n).length = n := by
      intro n hn
      rw [List.length_take, hlength, Nat.min_eq_left hn]
    refine ⟨_, _, hmake, hlength, ?_, ?_⟩
    · have hshort := (hcut _ _ (List.take_append_drop 2047 _) (hlost _ (by decide))).1
      rw [hpart 2047 (by decide)] at hshort
      exact hshort (by decide)
    · have hlong := (hcut _ _ (List.take_append_drop 2127 _) (hlost _ (by decide))).2
      rw [hpart 2127 (by decide)] at hlong
      obtain ⟨i, hi, -, hout, hread⟩ := hlong (by decide)
      have hstop : (head Lookups.collision i).stop ≤ 2128 := (mem_refs (head_mem_refs hi).2).2
      have hend : (head Lookups.collision i).stop = 2128 := by omega
      rw [hend] at hread
      rw [List.dropLast_eq_take, hlength]
      exact ⟨i, _, hread⟩
  · have hsmall : fileSize (offered offer shortCalls (Builder.ofConfig {})) < UInt32.size := by
      decide +kernel
    specialize hindex shortCalls
    generalize offered offer shortCalls (Builder.ofConfig {}) = b at hindex hsmall ⊢
    rw [fileSize] at hsmall
    have hfinish := finish_of_lt b (by omega) (by omega)
    obtain ⟨-, hcut, hmore⟩ := hindex _ _ hfinish
    have hlength : 4095 < (parts b).flatten.length := by
      rw [length_parts, fileSize, Header.size]
      omega
    have hlost : (parts b).flatten.drop 4095 ≠ [] :=
      fun hnil => Nat.not_le_of_lt hlength (List.drop_eq_nil_iff.mp hnil)
    have hshort := hcut _ _ (List.take_append_drop 4095 _) hlost
    rw [List.length_take, Nat.min_eq_left (Nat.le_of_lt hlength)] at hshort
    exact ⟨_, _, hfinish, hshort, hmore [0] (by decide)⟩

end Concordance.Proofs.Truncation
