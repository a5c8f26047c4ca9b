import Reservoir.Proofs.Stream.Cataloguing
import Reservoir.Proofs.Stream.Layout
import Reservoir.Proofs.Text.Spellings

/-!
Binary streams are canonical. A keyword that is decoded stands in the stream as the bytes that it
is written as, so a stream that can be scanned is tiled by its keywords, and writing them makes
the same stream again.
-/

namespace Reservoir

open Cursor Outcome Text

theorem Header.typeOf_eq_ok {code : List Char} {type : ElementType} (h : typeOf code = .ok type) :
    type.code = code := by
  unfold typeOf at h
  split at h
  · next found hfound =>
    cases h
    exact ElementType.code_of_ofCode? hfound
  · cases h

theorem Header.recordBytes_of_ofRecord {order : ByteOrder} {bytes : Bytes} {k : Keyword}
    (h : ofRecord order bytes = .ok k.header) :
    bytes = recordBytes order k ∧ k.count ≤ wordLimit := by
  unfold ofRecord at h
  split at h
  · cases h
  next hlen =>
  have hlen : bytes.length = 16 := not_not.1 hlen
  split at h
  · cases h
  next cs hcs =>
  obtain ⟨name, hname, h⟩ := bind_eq_ok.1 h
  dsimp only at h
  split at h
  · cases h
  next hsign =>
  obtain ⟨type, htype, h⟩ := bind_eq_ok.1 h
  obtain ⟨hval, rfl, hcount⟩ := Header.mk.inj (Except.ok.inj h)
  obtain rfl : name = k.name := Subtype.ext hval
  have hnameBytes : bytes.take 8 = asciiBytes k.name.padded :=
    Name.padded_of_check (by rw [List.length_take, hlen]; rfl) hcs hname
  have hcountLength : ((bytes.drop 8).take 4).length = 4 := by
    rw [List.length_take, List.length_drop, hlen]
    rfl
  obtain ⟨hcountBytes, hfits⟩ := ByteOrder.encode_of_decodeInt32 (n := k.count) hcountLength
    (by rw [← hcount, Int.toNat_of_nonneg (Int.not_lt.1 hsign)])
  have hcode : bytes.drop 12 = asciiBytes k.type.code := by
    rw [typeOf_eq_ok htype]
    refine eq_asciiBytes_of_decodeLenient fun c hc => ?_
    rw [← typeOf_eq_ok htype] at hc
    exact ElementType.isPrintableAscii_of_mem_code hc
  refine ⟨?_, hfits⟩
  calc bytes = bytes.take 8 ++ ((bytes.drop 8).take 4 ++ (bytes.drop 8).drop 4) := by
        rw [List.take_append_drop, List.take_append_drop]
    _ = recordBytes order k := by
        rw [List.drop_drop, hnameBytes, ← hcountBytes, hcode, recordBytes, List.append_assoc]

theorem Record.position_of_read {order : ByteOrder} {c c' : Cursor} {payload : Bytes}
    (h : read order c = .ok (some (payload, c'))) :
    c'.position = c.position + (framed order payload).length := by
  have hplace := (read_ahead h).position_add_length
  rw [(rest_of_read h).1, List.length_append] at hplace
  omega

namespace Records

theorem eq_dataPayloads {order : ByteOrder} {k : Keyword} (hk : k.Whole) {payloads : List Bytes}
    (hlengths : payloads.map List.length =
      (partSizes k.type.blockSize (stored k.header)).map (· * k.type.size))
    (hpayload : reorder order k.type payloads.flatten = k.payload) :
    payloads = dataPayloads order k := by
  rw [List.eq_iff_flatten_eq, hlengths, map_length_dataPayloads order hk]
  refine ⟨?_, rfl⟩
  rw [← reorder_reorder order k.type payloads.flatten, hpayload,
    ← reorder_flatten_dataPayloads order hk, reorder_reorder]

theorem rest_of_decodeNext {order : ByteOrder} {c next : Cursor} {k : Keyword}
    (h : (Encoding.binary order).decodeNext c = .ok (k, next)) :
    c.rest = bytesOf order k ++ next.rest ∧ k.count ≤ wordLimit := by
  obtain ⟨data, hheader, hpayload⟩ := Encoding.decodeNext_eq_ok.1 h
  obtain ⟨record, hread, hrecord⟩ := readHeader_eq_some hheader
  obtain ⟨rfl, hfits⟩ := Header.recordBytes_of_ofRecord hrecord
  obtain ⟨bytes, hblocks, hbytes⟩ := Encoding.readPayload_binary_eq_ok hpayload
  obtain ⟨payloads, rfl, hlengths, hrest⟩ := rest_of_readBlocks hblocks
  refine ⟨?_, hfits⟩
  rw [(Record.rest_of_read hread).1, hrest,
    eq_dataPayloads (Keyword.whole_of_count_le hfits) hlengths hbytes.symm, bytesOf,
    List.append_assoc]

theorem position_of_readHeader {order : ByteOrder} {c data : Cursor} {k : Keyword}
    (h : readHeader order c = .ok (some (k.header, data))) : data.position = c.position + 24 := by
  obtain ⟨record, hread, hrecord⟩ := readHeader_eq_some h
  obtain ⟨rfl, -⟩ := Header.recordBytes_of_ofRecord hrecord
  rw [Record.position_of_read hread]
  simp [Record.framed, Record.markerSize, ByteOrder.length_encode, Header.length_recordBytes]

theorem rest_of_readHeader_none {order : ByteOrder} {c : Cursor}
    (h : readHeader order c = .ok none) : c.rest = [] := by
  have hread : Record.read order c = .ok none := by
    refine none_of_bind h fun ⟨bytes, c₁⟩ hsome => ?_
    obtain ⟨header, -, hsome⟩ := bind_eq_ok.1 hsome
    cases hsome
  have hlength : Record.readLength order c = .ok none := by
    refine none_of_bind hread fun ⟨length, c₁⟩ hsome => ?_
    dsimp only at hsome
    split at hsome
    · cases hsome
    · obtain ⟨c₂, -, hsome⟩ := bind_eq_ok.1 hsome
      cases hsome
  have hmarker : Record.readMarker order c = .ok none := by
    refine none_of_bind hlength fun ⟨marker, c₁⟩ hsome => ?_
    dsimp only at hsome
    split at hsome <;> cases hsome
  simp only [Record.readMarker, front, List.length_take] at hmarker
  split at hmarker
  · next hempty =>
    rw [Record.markerSize] at hempty
    exact List.eq_nil_of_length_eq_zero (by omega)
  · split at hmarker <;> cases hmarker

/-- Entries of a stream, from a place on, and the keywords that lie at them. Each keyword ends
where the next one begins, and the last one ends with the stream. -/
inductive Tiles (order : ByteOrder) (stream : Bytes) : Nat → List Keyword → List Entry → Prop where
  | nil : Tiles order stream stream.length [] []
  | cons {k : Keyword} {e : Entry} {ks : List Keyword} {es : List Entry}
      (header : e.header = k.header) (fits : k.count ≤ wordLimit)
      (data : e.dataOffset = e.offset + 24)
      (bytes : stream.drop e.offset =
        bytesOf order k ++ stream.drop (e.offset + (bytesOf order k).length))
      (tail : Tiles order stream (e.offset + (bytesOf order k).length) ks es) :
      Tiles order stream e.offset (k :: ks) (e :: es)

theorem decodeNext_of_skipPayload {order : ByteOrder} {streamLength : Nat} {c data next : Cursor}
    {header : Header} (hc : c.position + c.rest.length = streamLength)
    (hh : (Encoding.binary order).readHeader c = .ok (some (header, data)))
    (hs : (Encoding.binary order).skipPayload streamLength header data = .ok next) :
    ∃ k : Keyword, k.header = header ∧ (Encoding.binary order).decodeNext c = .ok (k, next) := by
  have hdata : data.position + data.rest.length = streamLength := by
    rw [(Encoding.readHeader_ahead hh).position_add_length, hc]
  obtain ⟨⟨payload, next⟩, hpayload, rfl⟩ :=
    (Encoding.readPayload_agree_skipPayload order header hdata).of_ok_right hs
  obtain ⟨k, hk⟩ := Encoding.ofPayload_of_readPayload hh hpayload
  have hdecode : (Encoding.binary order).decodeNext c = .ok (k, next) := by
    simp only [Encoding.decodeNext, hh, hpayload, hk, ok_bind, pure_eq]
  obtain ⟨data', hheader, -⟩ := Encoding.decodeNext_eq_ok.1 hdecode
  rw [hh] at hheader
  cases hheader
  exact ⟨k, rfl, hdecode⟩

theorem tiles_of_scanFrom {order : ByteOrder} {stream : Bytes} {seen : List String} {c : Cursor}
    {es : List Entry} (hc : (start stream).Ahead c)
    (h : (Encoding.binary order).scanFrom stream.length seen c = .ok es) :
    ∃ ks, Tiles order stream c.position ks es := by
  induction es generalizing seen c with
  | nil =>
    obtain ⟨-, hend⟩ | ⟨header, data, next, back, -, -, -, hes⟩ := Encoding.scanFrom_eq_ok h
    · have hlength := hc.length_stream
      rw [rest_of_readHeader_none hend, List.length_nil, Nat.add_zero] at hlength
      rw [hlength]
      exact ⟨[], .nil⟩
    · cases hes
  | cons e es ih =>
    obtain ⟨hnil, -⟩ | ⟨header, data, next, back, hheader, hskip, hback, hes⟩ :=
      Encoding.scanFrom_eq_ok h
    · cases hnil
    obtain ⟨rfl, rfl⟩ := List.cons.inj hes
    obtain ⟨k, rfl, hdecode⟩ := decodeNext_of_skipPayload hc.length_stream hheader hskip
    have hnext : (start stream).Ahead next :=
      hc.trans ((Encoding.readHeader_ahead hheader).trans (Encoding.skipPayload_ahead hskip))
    obtain ⟨hrest, hfits⟩ := rest_of_decodeNext hdecode
    obtain ⟨ks, htail⟩ := ih hnext hback
    have hplace : next.position = c.position + (bytesOf order k).length := by
      have hlength := hc.length_stream
      rw [hrest, List.length_append, ← hnext.length_stream] at hlength
      omega
    have hdrop : stream.drop c.position = c.rest := congrArg Cursor.rest hc.eq_seek
    have hdropNext : stream.drop next.position = next.rest := congrArg Cursor.rest hnext.eq_seek
    rw [hplace] at htail hdropNext
    have hbytes := hdrop.trans hrest
    rw [← hdropNext] at hbytes
    exact ⟨k :: ks, .cons (e := ⟨_, _, _, c.position, _, _⟩) rfl hfits
      (position_of_readHeader hheader) hbytes htail⟩

namespace Tiles

variable {order : ByteOrder} {stream : Bytes} {place : Nat} {ks : List Keyword} {es : List Entry}

theorem length_eq (h : Tiles order stream place ks es) : es.length = ks.length := by
  induction h with
  | nil => rfl
  | cons header fits data bytes tail ih => rw [List.length_cons, List.length_cons, ih]

theorem drop_eq (h : Tiles order stream place ks es) :
    stream.drop place = (ks.map (bytesOf order)).flatten := by
  induction h with
  | nil => rw [List.drop_length]; rfl
  | cons header fits data bytes tail ih => rw [bytes, ih, List.map_cons, List.flatten_cons]

theorem fits_of_mem (h : Tiles order stream place ks es) {k : Keyword} (hk : k ∈ ks) :
    k.count ≤ wordLimit := by
  induction h with
  | nil => cases hk
  | cons header fits data bytes tail ih =>
    rcases List.mem_cons.1 hk with rfl | hk
    · exact fits
    · exact ih hk

theorem loadAll_eq (h : Tiles order stream place ks es) {file : KeywordFile}
    (hfile : file.encoding = .binary order) : file.loadAll stream es = ks.map .ok := by
  induction h with
  | nil => rfl
  | @cons k e ks es header fits data bytes tail ih =>
    have hdecode : file.encoding.decodeNext (.seek stream e.offset) =
        .ok (k, .seek stream (e.offset + (bytesOf order k).length)) := by
      rw [hfile, seek, bytes]
      exact decodes_bytesOf fits order e.offset _
    rw [KeywordFile.loadAll, List.map_cons, List.map_cons,
      KeywordFile.load_of_decodeNext header hdecode]
    exact congrArg _ ih

theorem offset_getElem (h : Tiles order stream place ks es) (i : Nat) (hi : i < es.length) :
    es[i].offset = place + ((ks.take i).map fun k => (bytesOf order k).length).sum ∧
      es[i].dataOffset = es[i].offset + 24 := by
  induction h generalizing i with
  | nil => exact absurd hi (Nat.not_lt_zero i)
  | cons header fits data bytes tail ih =>
    cases i with
    | zero => exact ⟨rfl, data⟩
    | succ i =>
      obtain ⟨hoffset, hdata⟩ := ih i (Nat.lt_of_succ_lt_succ hi)
      refine ⟨?_, hdata⟩
      rw [List.getElem_cons_succ, hoffset, List.take_succ_cons, List.map_cons, List.sum_cons,
        Nat.add_assoc]

end Tiles

end Records

theorem Writer.writeAll_of_send {encoding : Encoding} {bytesOf : Keyword → Bytes}
    {ks : List Keyword} (h : ∀ k ∈ ks, encoding.send k = ⟨bytesOf k, none⟩) (front : Bytes)
    (written : Nat) :
    writeAll ⟨encoding, front, written⟩ ks =
      (⟨encoding, front ++ (ks.map bytesOf).flatten, written + ks.length⟩, none) := by
  induction ks generalizing front written with
  | nil => simp [writeAll]
  | cons k ks ih =>
    simp only [List.mem_cons, forall_eq_or_imp] at h
    have hstep : write ⟨encoding, front, written⟩ k =
        (⟨encoding, front ++ bytesOf k, written + 1⟩, none) := write_of_send h.1
    simp only [writeAll, hstep, ih h.2, List.map_cons, List.flatten_cons, List.append_assoc,
      List.length_cons, Nat.add_assoc, Nat.add_comm 1]

def Writer.streamOf (order : ByteOrder) (ks : List Keyword) : Bytes :=
  ((start (.binary order)).writeAll ks).1.bytes

theorem Writer.writeAll_binary {ks : List Keyword} (h : ∀ k ∈ ks, k.count ≤ wordLimit)
    (order : ByteOrder) :
    streamOf order ks = (ks.map (Records.bytesOf order)).flatten ∧
      (start (.binary order)).writeAll ks =
        (⟨.binary order, streamOf order ks, ks.length⟩, none) := by
  have hsend : ∀ k ∈ ks, (Encoding.binary order).send k = ⟨Records.bytesOf order k, none⟩ :=
    fun k hk => Records.send_eq (h k hk) order
  have hwrite := writeAll_of_send hsend [] 0
  rw [List.nil_append, Nat.zero_add] at hwrite
  exact ⟨congrArg (·.1.bytes) hwrite, by rw [streamOf, start, hwrite]⟩

/-- A binary stream that can be scanned is made again by writing what its entries load. Each entry
lies behind the keywords before it, and the last keyword ends with the stream. -/
theorem Encoding.writeAll_of_scan (order : ByteOrder) {stream : Bytes} {es : List Entry}
    (h : (binary order).scan stream stream.length = .ok es) :
    ∃ ks : List Keyword, es.length = ks.length ∧
      (∀ file : KeywordFile, file.encoding = .binary order →
        file.loadAll stream es = ks.map .ok) ∧
      (Writer.start (.binary order)).writeAll ks = (⟨.binary order, stream, ks.length⟩, none) ∧
      (∀ (i : Nat) (hi : i < es.length),
        es[i].offset = ((ks.take i).map fun k => ((binary order).send k).bytes.length).sum ∧
        es[i].dataOffset = es[i].offset + 24) ∧
      (ks.map fun k => ((binary order).send k).bytes.length).sum = stream.length := by
  obtain ⟨ks, htiles⟩ := Records.tiles_of_scanFrom (Ahead.refl (start stream)) h
  have hsend : ∀ k ∈ ks, (binary order).send k = ⟨Records.bytesOf order k, none⟩ :=
    fun k hk => Records.send_eq (htiles.fits_of_mem hk) order
  have hstream : (ks.map (Records.bytesOf order)).flatten = stream := htiles.drop_eq.symm
  refine ⟨ks, htiles.length_eq, fun file => htiles.loadAll_eq, ?_, fun i hi => ?_, ?_⟩
  · rw [Writer.start, Writer.writeAll_of_send hsend, hstream, List.nil_append, Nat.zero_add]
  · obtain ⟨hoffset, hdata⟩ := htiles.offset_getElem i hi
    refine ⟨?_, hdata⟩
    rw [hoffset, start, Nat.zero_add]
    refine congrArg List.sum (List.map_congr_left fun k hk => ?_)
    rw [hsend k (List.mem_of_mem_take hk)]
  · rw [← congrArg List.length hstream, List.length_flatten, List.map_map]
    refine congrArg List.sum (List.map_congr_left fun k hk => ?_)
    rw [hsend k hk, Function.comp_apply]

/-- A name of two numbers and a message that declares three elements, in a little-ended stream. -/
theorem Encoding.writeAll_of_scan_message :
    let numbers : Keyword :=
      ⟨⟨"PORO", by decide⟩, .int, 2, [1, 0, 0, 0, 0xfe, 0xff, 0xff, 0xff], .inl rfl⟩
    let message : Keyword := ⟨⟨"ENDSOL", by decide⟩, .message, 3, [], .inl rfl⟩
    let stream := Records.bytesOf .little numbers ++ (Records.bytesOf .little message ++ [])
    ∃ es ks, (binary .little).scan stream stream.length = .ok es ∧ es.length = 2 ∧
      (Writer.start (.binary .little)).writeAll ks = (⟨.binary .little, stream, 2⟩, none) ∧
      ∀ i (hi : i < es.length), es[i].dataOffset = es[i].offset + 24 := by
  intro numbers message stream
  have hnumbers : (binary .little).Decodes (Records.bytesOf .little numbers) numbers :=
    Records.decodes_bytesOf (by decide) .little
  have hmessage : (binary .little).Decodes (Records.bytesOf .little message) message :=
    Records.decodes_bytesOf (by decide) .little
  have hall : (binary .little).decodeAll (.start stream) = ([numbers, message], .endOfStream) := by
    rw [start, decodeAll_cons (hnumbers 0 _), decodeAll_cons (hmessage _ []), decodeAll_nil]
  obtain ⟨es, hscan, hcatalogues⟩ := scanFrom_of_decodeAll (Ahead.refl _) hall []
  obtain ⟨ks, hlength, -, hwrite, hentries, -⟩ := writeAll_of_scan .little hscan
  rw [← hlength, hcatalogues.length_eq] at hwrite
  exact ⟨es, ks, hscan, hcatalogues.length_eq, hwrite, fun i hi => (hentries i hi).2⟩

end Reservoir
