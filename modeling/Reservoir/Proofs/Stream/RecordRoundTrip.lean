import Reservoir.Proofs.Stream.Dividing
import Reservoir.Proofs.Stream.Framing
import Reservoir.Proofs.Stream.Reorder
import Reservoir.Proofs.Stream.Writing
import Reservoir.Proofs.Text.Digits

/-!
Binary streams are read back as they were written: every header, every block of every type in
either byte order. A keyword whose count does not fit a header is refused before anything of it
is sent.
-/

namespace Reservoir

open Text

namespace ElementType

theorem blockSize_mul_size_le (type : ElementType) : type.blockSize * type.size ≤ wordLimit := by
  cases type with
  | fixed width =>
    have hw := Nat.mul_le_mul_left 105 width.property.2
    exact Nat.le_trans hw (by decide)
  | _ => decide

end ElementType

namespace Header

def recordBytes (order : ByteOrder) (k : Keyword) : Bytes :=
  asciiBytes k.name.padded ++ order.encode 4 k.count ++ asciiBytes k.type.code

theorem length_recordBytes (order : ByteOrder) (k : Keyword) :
    (recordBytes order k).length = 16 := by
  simp [recordBytes, asciiBytes, Name.length_padded, ElementType.length_code]

theorem toRecord_header {k : Keyword} (h : k.count ≤ wordLimit) (order : ByteOrder) :
    k.header.toRecord order = .ok (recordBytes order k) := by
  simp [toRecord, Keyword.header, h, Name.padAscii_name, recordBytes]

theorem ofRecord_recordBytes {k : Keyword} (h : k.count ≤ wordLimit) (order : ByteOrder) :
    ofRecord order (recordBytes order k) = .ok k.header := by
  have hname : (asciiBytes k.name.padded).length = 8 := by simp [asciiBytes, Name.length_padded]
  have hcount : (order.encode 4 k.count).length = 4 := ByteOrder.length_encode ..
  have htake : (recordBytes order k).take 8 = asciiBytes k.name.padded := by
    rw [recordBytes, List.append_assoc]
    exact List.take_left' hname
  have hdrop : (recordBytes order k).drop 8 =
      order.encode 4 k.count ++ asciiBytes k.type.code := by
    rw [recordBytes, List.append_assoc]
    exact List.drop_left' hname
  have hcode : (recordBytes order k).drop 12 = asciiBytes k.type.code := by
    rw [recordBytes]
    exact List.drop_left' (by simp [hname, hcount])
  have hvalue : (order.decodeInt32 (order.encode 4 k.count)).toInt = k.count :=
    Record.decodeInt32_encode h order
  have hsign : ¬(k.count : Int) < 0 := by omega
  simp only [ofRecord, length_recordBytes, ne_eq, not_true, if_false, htake, hdrop, hcode,
    List.take_left' hcount, decodeUtf8?_asciiBytes fun _ => Name.isAscii_of_mem_padded,
    Name.check_padded, Outcome.ok_bind, hvalue, hsign,
    decodeLenient_asciiBytes fun _ => ElementType.isAscii_of_mem_code, typeOf,
    ElementType.ofCode?_code]
  rfl

end Header

namespace Records

theorem sendFrames_eq {payloads : List Bytes} (h : ∀ p ∈ payloads, p.length ≤ wordLimit)
    (order : ByteOrder) :
    sendFrames order payloads = ⟨(payloads.map (Record.framed order)).flatten, none⟩ := by
  induction payloads with
  | nil => rfl
  | cons payload payloads ih =>
    simp only [List.mem_cons, forall_eq_or_imp] at h
    simp [sendFrames, Record.frame_eq_ok h.1, Output.ofOutcome, Output.append, ih h.2]

/-- Blocks of the right lengths are read one by one, by the recursion that made the lengths. -/
theorem readBlocks_framed {h : Header} {left : Nat} {payloads : List Bytes}
    (hlen : payloads.map List.length = (partSizes h.type.blockSize left).map (· * h.type.size))
    (order : ByteOrder) (place : Nat) (rest : Bytes) :
    readBlocks order h left ⟨place, (payloads.map (Record.framed order)).flatten ++ rest⟩ =
      .ok (payloads.flatten,
        ⟨place + (payloads.map (Record.framed order)).flatten.length, rest⟩) := by
  have hpos := h.type.blockSize_pos
  induction payloads generalizing left place with
  | nil =>
    have hleft : left = 0 := by
      by_contra hne
      simp [partSizes_of_pos hpos hne] at hlen
    subst hleft
    simp [readBlocks]
  | cons payload payloads ih =>
    have hleft : left ≠ 0 := by
      rintro rfl
      simp [partSizes_zero] at hlen
    rw [partSizes_of_pos hpos hleft, List.map_cons, List.map_cons, List.cons.injEq] at hlen
    have hfits : payload.length ≤ wordLimit := by
      rw [hlen.1]
      exact Nat.le_trans (Nat.mul_le_mul_right _ (Nat.min_le_left ..))
        h.type.blockSize_mul_size_le
    rw [readBlocks, dif_neg hleft, List.map_cons, List.flatten_cons, List.append_assoc,
      Record.read_framed hfits]
    simp only [Outcome.ok_bind, checkLength, hlen.1, if_true, ih hlen.2, Outcome.pure_eq,
      List.flatten_cons, List.length_append, Nat.add_assoc]

theorem stored_header (k : Keyword) :
    stored k.header = if k.type.size = 0 then 0 else k.count := rfl

theorem sum_recordBytes {k : Keyword} (hk : k.Whole) :
    ((k.type.recordSizes k.count).map (· * k.type.size)).sum = k.payload.length := by
  rw [ElementType.sum_map_recordSizes, hk]

theorem map_length_dataPayloads (order : ByteOrder) {k : Keyword} (hk : k.Whole) :
    (dataPayloads order k).map List.length =
      (partSizes k.type.blockSize (stored k.header)).map (· * k.type.size) := by
  by_cases hzero : k.type.size = 0
  · simp [dataPayloads, ElementType.recordSizes, stored_header, hzero, Lines.parts,
      partSizes_zero]
  · have hreorder : List.length ∘ reorder order k.type = List.length := by
      funext bytes
      exact length_reorder order k.type bytes
    rw [dataPayloads, List.map_map, hreorder, Lines.map_length_parts (sum_recordBytes hk),
      stored_header, if_neg hzero, ElementType.recordSizes, if_neg hzero]

theorem length_le_of_mem_dataPayloads {order : ByteOrder} {k : Keyword} (hk : k.Whole)
    {payload : Bytes} (h : payload ∈ dataPayloads order k) : payload.length ≤ wordLimit := by
  have hmem : payload.length ∈ (dataPayloads order k).map List.length :=
    List.mem_map_of_mem h
  rw [map_length_dataPayloads order hk] at hmem
  obtain ⟨size, hsize, heq⟩ := List.mem_map.1 hmem
  rw [← heq]
  exact Nat.le_trans (Nat.mul_le_mul_right _ (le_of_mem_partSizes hsize))
    k.type.blockSize_mul_size_le

theorem reorder_flatten_dataPayloads (order : ByteOrder) {k : Keyword} (hk : k.Whole) :
    reorder order k.type (dataPayloads order k).flatten = k.payload := by
  have hcut : ∀ piece ∈ Lines.parts ((k.type.recordSizes k.count).map (· * k.type.size)) k.payload,
      k.type.size ∣ piece.length := by
    intro piece hpiece
    have hmem := List.mem_map_of_mem (f := List.length) hpiece
    rw [Lines.map_length_parts (sum_recordBytes hk)] at hmem
    obtain ⟨size, -, heq⟩ := List.mem_map.1 hmem
    exact Dvd.intro_left size heq
  rw [dataPayloads, flatten_map_reorder order k.type hcut, reorder_reorder,
    Lines.flatten_parts (sum_recordBytes hk)]

def bytesOf (order : ByteOrder) (k : Keyword) : Bytes :=
  Record.framed order (Header.recordBytes order k)
    ++ ((dataPayloads order k).map (Record.framed order)).flatten

theorem send_eq {k : Keyword} (h : k.count ≤ wordLimit) (order : ByteOrder) :
    send order k = ⟨bytesOf order k, none⟩ := by
  have hfits : ∀ p ∈ Header.recordBytes order k :: dataPayloads order k, p.length ≤ wordLimit := by
    intro p hp
    rcases List.mem_cons.1 hp with rfl | hp
    · rw [Header.length_recordBytes]
      decide
    · exact length_le_of_mem_dataPayloads (Keyword.whole_of_count_le h) hp
  simp only [send, Header.toRecord_header h, sendFrames_eq hfits, List.map_cons, List.flatten_cons,
    bytesOf]

theorem send_eq_of_lt {k : Keyword} (h : wordLimit < k.count) (order : ByteOrder) :
    send order k = ⟨[], some (.malformed (.headerCountTooLarge k.name.val k.count))⟩ := by
  simp [send, Header.toRecord, Keyword.header, Nat.not_le.2 h, reject]

theorem decodes_bytesOf {k : Keyword} (h : k.count ≤ wordLimit) (order : ByteOrder) :
    (Encoding.binary order).Decodes (bytesOf order k) k := by
  intro place rest
  have hk := Keyword.whole_of_count_le h
  have hheader : Record.read order ⟨place, bytesOf order k ++ rest⟩ = .ok (some
      (Header.recordBytes order k,
        ⟨place + (Record.framed order (Header.recordBytes order k)).length,
          ((dataPayloads order k).map (Record.framed order)).flatten ++ rest⟩)) := by
    rw [bytesOf, List.append_assoc]
    exact Record.read_framed (by rw [Header.length_recordBytes]; decide) ..
  have hdata := readBlocks_framed (h := k.header) (map_length_dataPayloads order hk) order
    (place + (Record.framed order (Header.recordBytes order k)).length) rest
  have hlength : (bytesOf order k).length =
      (Record.framed order (Header.recordBytes order k)).length
        + ((dataPayloads order k).map (Record.framed order)).flatten.length := List.length_append
  simp only [Encoding.decodeNext, Encoding.readHeader, readHeader, hheader, Outcome.ok_bind,
    Header.ofRecord_recordBytes h, Outcome.pure_eq, Encoding.readPayload, readPayload, hdata,
    hlength, Nat.add_assoc]
  simp only [Keyword.header, reorder_flatten_dataPayloads order hk, Keyword.ofPayload_payload,
    Outcome.ok_bind]

end Records

/-- A binary stream is read back as it was written, and a count beyond the range of a header
leaves the writer as it was. -/
theorem Writer.decodeAll_writeAll_binary (order : ByteOrder) :
    (∀ ks : List Keyword, (∀ k ∈ ks, k.count ≤ wordLimit) →
      ∃ bytes, (start (.binary order)).writeAll ks = (⟨.binary order, bytes, ks.length⟩, none) ∧
        (Encoding.binary order).decodeAll (.start bytes) = (ks, .endOfStream)) ∧
    ∀ (w : Writer) (k : Keyword), w.encoding = .binary order → wordLimit < k.count →
      w.write k = (w, some (.malformed (.headerCountTooLarge k.name.val k.count))) := by
  refine ⟨fun ks hks => ?_, fun w k hw hk => write_of_fault ?_⟩
  · have hdecodes : ∀ k ∈ ks, ∃ bytes, (Encoding.binary order).send k = ⟨bytes, none⟩ ∧
        (Encoding.binary order).Decodes bytes k := fun k hk =>
      ⟨_, Records.send_eq (hks k hk) order, Records.decodes_bytesOf (hks k hk) order⟩
    obtain ⟨bytes, hwrite, hread⟩ := writeAll_of_decodes hdecodes [] 0
    rw [List.nil_append, Nat.zero_add] at hwrite
    exact ⟨bytes, hwrite, hread 0⟩
  · rw [hw]
    exact Records.send_eq_of_lt hk order

/-- Two numbers in a big-ended stream, and a message of more elements than a header can hold. -/
theorem Writer.decodeAll_writeAll_binary_big :
    let name : Name := ⟨"PORO", by decide⟩
    let numbers : Keyword := ⟨name, .int, 2, [1, 0, 0, 0, 0xfe, 0xff, 0xff, 0xff], .inl rfl⟩
    let message : Keyword := ⟨name, .message, wordLimit + 1, [], .inl rfl⟩
    let w := start (.binary .big)
    ((∀ k ∈ [numbers], k.count ≤ wordLimit) ∧ w.encoding = .binary .big ∧
      wordLimit < message.count) ∧
    (∃ bytes, w.writeAll [numbers] = (⟨.binary .big, bytes, 1⟩, none) ∧
      (Encoding.binary .big).decodeAll (.start bytes) = ([numbers], .endOfStream)) ∧
    w.write message =
      (w, some (.malformed (.headerCountTooLarge "PORO" (wordLimit + 1)))) := by
  intro name numbers message w
  have hcounts : ∀ k ∈ [numbers], k.count ≤ wordLimit := by
    intro k hk
    rw [List.mem_singleton.1 hk]
    decide
  have h := Writer.decodeAll_writeAll_binary .big
  exact ⟨⟨hcounts, rfl, Nat.lt_succ_self _⟩, h.1 [numbers] hcounts,
    h.2 w message rfl (Nat.lt_succ_self _)⟩

end Reservoir
