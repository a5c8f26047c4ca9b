import Reservoir.Proofs.Stream.Canonical
import Reservoir.Proofs.Stream.Holding

/-!
Binary streams that are cut off. Wherever the cut falls, the keywords before it are read as they
were written; a cut between two keywords is an end of the stream, and any other one is noticed,
whether the data of the keywords is read or passed.
-/

namespace Reservoir

open Cursor Outcome

namespace Record

variable {order : ByteOrder} {n : Nat}

theorem length_framed (order : ByteOrder) (payload : Bytes) :
    (framed order payload).length = markerSize + payload.length + markerSize := by
  simp only [framed, List.length_append, ByteOrder.length_encode]

theorem readMarker_short {c : Cursor} (hpos : 0 < c.rest.length) (hlen : c.rest.length < markerSize)
    (order : ByteOrder) : readMarker order c = .error (.truncated markerSize c.rest.length) := by
  have hfront : (c.front markerSize).length = c.rest.length := by
    rw [front, List.length_take, Nat.min_eq_right (Nat.le_of_lt hlen)]
  simp only [readMarker, hfront, if_neg (Nat.ne_of_gt hpos), if_pos hlen]

theorem read_nil (order : ByteOrder) (place : Nat) : read order ⟨place, []⟩ = .ok none := by
  simp [read, readLength, readMarker, front]

theorem read_short {c data : Cursor} {length : Nat}
    (hlength : readLength order c = .ok (some (length, data)))
    (hshort : data.rest.length < length + markerSize) :
    ∃ expected found, read order c = .error (.truncated expected found) := by
  simp only [read, hlength, ok_bind]
  by_cases hpayload : data.rest.length < length
  · have hfront : (data.front length).length < length := by
      rw [front, List.length_take, Nat.min_eq_right (Nat.le_of_lt hpayload)]
      exact hpayload
    exact ⟨_, _, if_pos hfront⟩
  · have hfront : ¬(data.front length).length < length := by
      rw [front, List.length_take, Nat.min_eq_left (Nat.le_of_not_lt hpayload)]
      exact Nat.lt_irrefl _
    have hrest : (data.advance length).rest.length < markerSize := by
      simp only [advance, List.length_drop]
      omega
    obtain ⟨expected, found, htrailer⟩ := readTrailer_short hrest order length
    exact ⟨expected, found, by rw [if_neg hfront, htrailer, error_bind]⟩

theorem read_cut {payload : Bytes} (h : payload.length ≤ wordLimit) (order : ByteOrder)
    (place : Nat) (hpos : 0 < n) (hn : n < (framed order payload).length) :
    ∃ expected found, read order ⟨place, (framed order payload).take n⟩ =
      .error (.truncated expected found) := by
  have hlen : ((framed order payload).take n).length = n := by
    rw [List.length_take, Nat.min_eq_left (Nat.le_of_lt hn)]
  rw [length_framed] at hn
  by_cases hlead : n < markerSize
  · refine ⟨markerSize, n, ?_⟩
    simp only [read, readLength, readMarker_short (c := ⟨place, (framed order payload).take n⟩)
      (by rwa [hlen]) (by rwa [hlen]), hlen, error_bind]
  · have hmarker : (order.encode markerSize payload.length).length = markerSize :=
      ByteOrder.length_encode ..
    obtain ⟨m, rfl⟩ := Nat.exists_eq_add_of_le (Nat.le_of_not_lt hlead)
    have htake : (framed order payload).take (markerSize + m) =
        order.encode markerSize payload.length ++
          (payload ++ order.encode markerSize payload.length).take m := by
      rw [framed, List.append_assoc, List.take_append, hmarker, Nat.add_sub_cancel_left,
        List.take_of_length_le (by rw [hmarker]; omega)]
    rw [htake]
    refine read_short (readLength_encode h order place _) ?_
    rw [List.length_take]
    omega

end Record

namespace Records

variable {order : ByteOrder} {n : Nat}

/-- Data records that are cut off are not read, also where the cut is between two of them. -/
theorem readBlocks_cut {h : Header} {left : Nat} {payloads : List Bytes}
    (hlen : payloads.map List.length = (partSizes h.type.blockSize left).map (· * h.type.size))
    (order : ByteOrder) (place : Nat)
    (hn : n < (payloads.map (Record.framed order)).flatten.length) :
    ∃ expected found, readBlocks order h left
      ⟨place, (payloads.map (Record.framed order)).flatten.take n⟩ =
        .error (.truncated expected found) := by
  have hpos := h.type.blockSize_pos
  induction payloads generalizing left place n with
  | nil => exact absurd hn (Nat.not_lt_zero n)
  | cons payload payloads ih =>
    have hleft : left ≠ 0 := by
      rintro rfl
      simp [partSizes_zero] at hlen
    rw [partSizes_of_pos hpos hleft, List.map_cons, List.map_cons, List.cons.injEq] at hlen
    have hfits : payload.length ≤ wordLimit := by
      rw [hlen.1]
      exact Nat.le_trans (Nat.mul_le_mul_right _ (Nat.min_le_left ..))
        h.type.blockSize_mul_size_le
    rw [List.map_cons, List.flatten_cons, List.length_append] at hn
    rw [readBlocks, dif_neg hleft, List.map_cons, List.flatten_cons, List.take_append]
    by_cases hfront : n < (Record.framed order payload).length
    · rw [Nat.sub_eq_zero_of_le (Nat.le_of_lt hfront), List.take_zero, List.append_nil]
      rcases Nat.eq_zero_or_pos n with rfl | hn'
      · exact ⟨_, 0, by rw [List.take_zero, Record.read_nil, ok_bind]⟩
      · obtain ⟨expected, found, hread⟩ := Record.read_cut hfits order place hn' hfront
        exact ⟨expected, found, by rw [hread, error_bind]⟩
    · have hfront := Nat.le_of_not_lt hfront
      obtain ⟨expected, found, hback⟩ := ih hlen.2 (place + (Record.framed order payload).length)
        (n := n - (Record.framed order payload).length) (by omega)
      refine ⟨expected, found, ?_⟩
      rw [List.take_of_length_le hfront]
      simp only [Record.read_framed hfits, ok_bind, checkLength, hlen.1, if_true, hback, error_bind]

theorem decodeNext_cut {k : Keyword} (h : k.count ≤ wordLimit) (order : ByteOrder) (place : Nat)
    (hpos : 0 < n) (hn : n < (bytesOf order k).length) :
    ∃ expected found, (Encoding.binary order).decodeNext ⟨place, (bytesOf order k).take n⟩ =
      .error (.truncated expected found) := by
  have hfits : (Header.recordBytes order k).length ≤ wordLimit := by
    rw [Header.length_recordBytes]
    decide
  rw [bytesOf, List.length_append] at hn
  rw [bytesOf, List.take_append]
  by_cases hheader : n < (Record.framed order (Header.recordBytes order k)).length
  · obtain ⟨expected, found, hread⟩ := Record.read_cut hfits order place hpos hheader
    refine ⟨expected, found, ?_⟩
    rw [Nat.sub_eq_zero_of_le (Nat.le_of_lt hheader), List.take_zero, List.append_nil]
    simp only [Encoding.decodeNext, Encoding.readHeader, readHeader, hread, error_bind]
  · have hheader := Nat.le_of_not_lt hheader
    obtain ⟨expected, found, hdata⟩ := readBlocks_cut (h := k.header)
      (map_length_dataPayloads order (Keyword.whole_of_count_le h)) order
      (place + (Record.framed order (Header.recordBytes order k)).length)
      (n := n - (Record.framed order (Header.recordBytes order k)).length) (by omega)
    refine ⟨expected, found, ?_⟩
    rw [List.take_of_length_le hheader]
    simp only [Encoding.decodeNext, Encoding.readHeader, readHeader, Record.read_framed hfits,
      ok_bind, Header.ofRecord_recordBytes h, pure_eq, Encoding.readPayload, readPayload, hdata,
      error_bind]

theorem length_bytesOf (order : ByteOrder) {k : Keyword} (hk : k.Whole) :
    (bytesOf order k).length = 24 +
      ((partSizes k.type.blockSize (stored k.header)).map (· * k.type.size + 8)).sum := by
  have hframed : List.length ∘ Record.framed order = (· + 8) ∘ List.length := by
    funext payload
    rw [Function.comp_apply, Record.length_framed, Record.markerSize, Function.comp_apply]
    omega
  rw [bytesOf, List.length_append, Record.length_framed, Header.length_recordBytes,
    List.length_flatten, List.map_map, hframed, ← List.map_map,
    map_length_dataPayloads order hk, List.map_map]
  rfl

theorem length_bytesOf_pos (order : ByteOrder) (k : Keyword) : 0 < (bytesOf order k).length := by
  rw [bytesOf, List.length_append, Record.length_framed, Record.markerSize]
  omega

def bytesOfAll (order : ByteOrder) (ks : List Keyword) : Bytes := (ks.map (bytesOf order)).flatten

theorem bytesOfAll_cons (order : ByteOrder) (k : Keyword) (ks : List Keyword) :
    bytesOfAll order (k :: ks) = bytesOf order k ++ bytesOfAll order ks := rfl

theorem bytesOfAll_append (order : ByteOrder) (front back : List Keyword) :
    bytesOfAll order (front ++ back) = bytesOfAll order front ++ bytesOfAll order back := by
  rw [bytesOfAll, List.map_append, List.flatten_append]
  rfl

theorem length_bytesOfAll_take_lt {ks : List Keyword} {i j : Nat} (hij : i < j)
    (hj : j ≤ ks.length) (order : ByteOrder) :
    (bytesOfAll order (ks.take i)).length < (bytesOfAll order (ks.take j)).length := by
  obtain ⟨d, rfl⟩ := Nat.exists_eq_add_of_lt hij
  have hnext := length_bytesOf_pos order ks[i]
  rw [Nat.add_assoc, List.take_add, List.drop_eq_getElem_cons (by omega), List.take_succ_cons,
    bytesOfAll_append, bytesOfAll_cons, List.length_append, List.length_append]
  omega

/-- The keywords that lie before a cut. Either the last of them ends there, or the cut is in the
next one. -/
inductive CutAt (order : ByteOrder) (n : Nat) (ks : List Keyword) (i : Nat) : Fault → Prop where
  | between (here : (bytesOfAll order (ks.take i)).length = n) : CutAt order n ks i .endOfStream
  | within {expected found : Nat} (before : (bytesOfAll order (ks.take i)).length < n)
      (next : i < ks.length) (after : n < (bytesOfAll order (ks.take (i + 1))).length) :
      CutAt order n ks i (.truncated expected found)

theorem CutAt.length_le_iff {ks : List Keyword} {i : Nat} {fault : Fault}
    (h : CutAt order n ks i fault) (hi : i ≤ ks.length) {j : Nat} (hj : j ≤ ks.length) :
    (bytesOfAll order (ks.take j)).length ≤ n ↔ j ≤ i := by
  rcases Nat.lt_trichotomy j i with hlt | rfl | hgt
  · have hsooner := length_bytesOfAll_take_lt hlt hi order
    cases h with
    | between here => omega
    | within before next after => omega
  · cases h with
    | between here => omega
    | within before next after => omega
  · have hlater := length_bytesOfAll_take_lt hgt hj order
    cases h with
    | between here => omega
    | within before next after =>
      rcases Nat.lt_or_eq_of_le (show i + 1 ≤ j from hgt) with hmore | rfl
      · have hlast := length_bytesOfAll_take_lt hmore hj order
        omega
      · omega

theorem CutAt.between_iff {ks : List Keyword} {i : Nat} {fault : Fault}
    (h : CutAt order n ks i fault) (hi : i ≤ ks.length) :
    (∃ j ≤ ks.length, (bytesOfAll order (ks.take j)).length = n) ↔ fault = .endOfStream := by
  have hends := fun j => h.length_le_iff hi (j := j)
  cases h with
  | between here => exact iff_of_true ⟨i, hi, here⟩ rfl
  | within before next after =>
    refine iff_of_false ?_ Fault.noConfusion
    rintro ⟨j, hj, hend⟩
    have hle : j ≤ i := (hends j hj).1 (Nat.le_of_eq hend)
    rcases Nat.lt_or_eq_of_le hle with hlt | rfl
    · have hsooner := length_bytesOfAll_take_lt hlt hi order
      omega
    · omega

theorem CutAt.cons {ks : List Keyword} {i : Nat} {fault : Fault} (h : CutAt order n ks i fault)
    (k : Keyword) : CutAt order ((bytesOf order k).length + n) (k :: ks) (i + 1) fault := by
  have hlength : ∀ j, (bytesOfAll order ((k :: ks).take (j + 1))).length =
      (bytesOf order k).length + (bytesOfAll order (ks.take j)).length := fun j => by
    rw [List.take_succ_cons, bytesOfAll_cons, List.length_append]
  cases h with
  | between here => exact .between (by rw [hlength, here])
  | within before next after =>
    exact .within (by rw [hlength]; omega) (Nat.succ_lt_succ next) (by rw [hlength]; omega)

/-- A stream that is cut off decodes to the keywords before the cut. -/
theorem decodeAll_take {ks : List Keyword} (hks : ∀ k ∈ ks, k.count ≤ wordLimit)
    (order : ByteOrder) (place : Nat) (hn : n ≤ (bytesOfAll order ks).length) :
    ∃ i ≤ ks.length, ∃ fault, CutAt order n ks i fault ∧
      (Encoding.binary order).decodeAll ⟨place, (bytesOfAll order ks).take n⟩ =
        (ks.take i, fault) := by
  induction ks generalizing place n with
  | nil =>
    have hn : n = 0 := Nat.le_zero.1 hn
    subst hn
    exact ⟨0, Nat.le_refl _, _, .between rfl, Encoding.decodeAll_nil _ place⟩
  | cons k ks ih =>
    simp only [List.mem_cons, forall_eq_or_imp] at hks
    rw [bytesOfAll_cons, List.length_append] at hn
    rw [bytesOfAll_cons, List.take_append]
    by_cases hcut : n < (bytesOf order k).length
    · rw [Nat.sub_eq_zero_of_le (Nat.le_of_lt hcut), List.take_zero, List.append_nil]
      rcases Nat.eq_zero_or_pos n with rfl | hpos
      · exact ⟨0, Nat.zero_le _, _, .between rfl, Encoding.decodeAll_nil _ place⟩
      · obtain ⟨expected, found, hdecode⟩ := decodeNext_cut hks.1 order place hpos hcut
        refine ⟨0, Nat.zero_le _, _, .within hpos (Nat.succ_pos _) ?_,
          Encoding.decodeAll_error hdecode⟩
        simpa [bytesOfAll] using hcut
    · obtain ⟨m, rfl⟩ := Nat.exists_eq_add_of_le (Nat.le_of_not_lt hcut)
      obtain ⟨i, hi, fault, hat, hback⟩ := ih hks.2 (place + (bytesOf order k).length)
        (Nat.le_of_add_le_add_left hn)
      refine ⟨i + 1, Nat.succ_le_succ hi, fault, hat.cons k, ?_⟩
      rw [List.take_of_length_le (Nat.le_add_right ..), Nat.add_sub_cancel_left,
        Encoding.decodeAll_cons (decodes_bytesOf hks.1 order place _), hback, List.take_succ_cons]

end Records

def Writer.EndsAt (order : ByteOrder) (ks : List Keyword) (n : Nat) : Prop :=
  ∃ j ≤ ks.length, (streamOf order (ks.take j)).length = n

/-- Keywords are written to a binary stream, and of its first bytes the keywords that end there
or sooner are read, as they were written. Where one of them ends with these bytes, the scanner
lists them too. Elsewhere the cut is noticed by both. -/
theorem Writer.decodeAll_take_streamOf (order : ByteOrder) {ks : List Keyword}
    (hks : ∀ k ∈ ks, k.count ≤ wordLimit) :
    ((start (.binary order)).writeAll ks).2 = none ∧
    ∀ n ≤ (streamOf order ks).length,
      ∃ i ≤ ks.length, (∀ j ≤ ks.length, (streamOf order (ks.take j)).length ≤ n ↔ j ≤ i) ∧
      let cut := (streamOf order ks).take n
      (EndsAt order ks n →
        (Encoding.binary order).decodeAll (.start cut) = (ks.take i, .endOfStream) ∧
        ∃ es, (Encoding.binary order).scan cut n = .ok es ∧
          ∀ file : KeywordFile, file.encoding = .binary order →
            file.Lists cut ⟨es⟩ (ks.take i)) ∧
      (¬EndsAt order ks n →
        ∃ fault fault', (Encoding.binary order).decodeAll (.start cut) = (ks.take i, fault) ∧
          fault.kind = .truncated ∧
          (Encoding.binary order).scan cut n = .error fault' ∧ fault'.kind = .truncated) := by
  have hstream : streamOf order ks = Records.bytesOfAll order ks := (writeAll_binary hks order).1
  have hfront : ∀ j, streamOf order (ks.take j) = Records.bytesOfAll order (ks.take j) :=
    fun j => (writeAll_binary (fun k hk => hks k (List.mem_of_mem_take hk)) order).1
  refine ⟨by rw [(writeAll_binary hks order).2], fun n hn => ?_⟩
  simp only [EndsAt, hfront]
  rw [hstream] at hn ⊢
  obtain ⟨i, hi, fault, hat, hdecode⟩ := Records.decodeAll_take hks order 0 hn
  refine ⟨i, hi, fun j hj => hat.length_le_iff hi hj, ?_⟩
  rw [hat.between_iff hi]
  have hlength : ((Records.bytesOfAll order ks).take n).length = n := by
    rw [List.length_take, Nat.min_eq_left hn]
  have hstart := Ahead.refl (Cursor.start ((Records.bytesOfAll order ks).take n))
  constructor
  · rintro rfl
    obtain ⟨es, hscan, hall⟩ := Encoding.scanFrom_of_decodeAll hstart hdecode []
    rw [hlength] at hscan
    exact ⟨hdecode, es, hscan, fun file hfile => KeywordFile.lists_of_catalogues hfile hall⟩
  · intro hend
    obtain ⟨-, fault', hscan, hkind⟩ := Encoding.scanFrom_error_of_decodeAll hstart hdecode hend []
    rw [hlength] at hscan
    have htruncated : fault.kind = .truncated := by
      cases hat with
      | between here => exact absurd rfl hend
      | within before next after => rfl
    exact ⟨fault, fault', hdecode, htruncated, hscan, hkind.trans htruncated⟩

/-- Two keywords, cut between the header of the second one and its numbers. -/
theorem Writer.decodeAll_take_streamOf_header :
    let message : Keyword := ⟨⟨"ENDSOL", by decide⟩, .message, 0, [], .inl rfl⟩
    let numbers : Keyword := ⟨⟨"PORO", by decide⟩, .int, 1, [1, 0, 0, 0], .inl rfl⟩
    let cut := (streamOf .big [message, numbers]).take 48
    ∃ fault fault', (Encoding.binary .big).decodeAll (.start cut) = ([message], fault) ∧
      fault.kind = .truncated ∧
      (Encoding.binary .big).scan cut 48 = .error fault' ∧ fault'.kind = .truncated := by
  intro message numbers cut
  have hnumbers : (Records.bytesOf .big numbers).length = 36 := by
    rw [Records.length_bytesOf .big (k := numbers) rfl,
      show Records.stored numbers.header = 1 from rfl, partSizes_of_pos (by decide) (by decide),
      show 1 - numbers.type.blockSize = 0 from rfl, partSizes_zero]
    rfl
  have hmessage : (Records.bytesOf .big message).length = 24 := by
    rw [Records.length_bytesOf .big (k := message) rfl,
      show Records.stored message.header = 0 from rfl, partSizes_zero]
    rfl
  have hone : (streamOf .big [message]).length = 24 := by
    rw [(writeAll_binary (by decide) .big).1]
    simp [hmessage]
  have htwo : (streamOf .big [message, numbers]).length = 60 := by
    rw [(writeAll_binary (by decide) .big).1]
    simp [hmessage, hnumbers]
  have hends : ¬EndsAt .big [message, numbers] 48 := by
    rintro ⟨j, hj, hend⟩
    match j, hj with
    | 0, _ => exact absurd hend (by decide)
    | 1, _ => exact absurd (hone.symm.trans hend) (by decide)
    | 2, _ => exact absurd (htwo.symm.trans hend) (by decide)
  obtain ⟨i, hi, hlies, -, hcut⟩ := (@decodeAll_take_streamOf .big [message, numbers]
    (by decide)).2 48 (by rw [htwo]; decide)
  have hfirst : 1 ≤ i := (hlies 1 (by decide)).1 (by
    rw [show [message, numbers].take 1 = [message] from rfl, hone]
    decide)
  have hsecond : ¬2 ≤ i := fun h => by
    have hfits := (hlies 2 (by decide)).2 h
    rw [show [message, numbers].take 2 = [message, numbers] from rfl, htwo] at hfits
    exact absurd hfits (by decide)
  obtain rfl : i = 1 := by omega
  exact hcut hends

end Reservoir
