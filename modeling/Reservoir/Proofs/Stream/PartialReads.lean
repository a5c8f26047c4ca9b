import Reservoir.Proofs.Stream.Cataloguing
import Reservoir.Proofs.Stream.Layout

/-!
Parts of a keyword read on their own. In a binary stream an element is found from its index alone,
past the markers of all records before it, and its bytes are turned alone; in a text stream the
whole keyword is read. Both give what loading the keyword gives.
-/

namespace Reservoir

open Cursor Outcome

namespace Bytes

def piece (size index : Nat) (bs : Bytes) : Bytes := (bs.drop (index * size)).take size

theorem length_piece {size index : Nat} {bs : Bytes} (h : (index + 1) * size ≤ bs.length) :
    (piece size index bs).length = size := by
  rw [Nat.succ_mul] at h
  rw [piece, List.length_take, List.length_drop]
  omega

theorem getElem?_slots {size count index : Nat} (h : index < count) (bs : Bytes) :
    (slots size count bs)[index]? = some (piece size index bs) := by
  induction count generalizing index bs with
  | zero => exact absurd h (Nat.not_lt_zero index)
  | succ count ih =>
    cases index with
    | zero => rw [slots, List.getElem?_cons_zero, piece, Nat.zero_mul, List.drop_zero]
    | succ index =>
      rw [slots, List.getElem?_cons_succ, ih (Nat.lt_of_succ_lt_succ h), piece, piece,
        List.drop_drop, Nat.succ_mul, Nat.add_comm size]

theorem piece_append_left {size index : Nat} {xs : Bytes} (h : (index + 1) * size ≤ xs.length)
    (ys : Bytes) : piece size index (xs ++ ys) = piece size index xs := by
  rw [Nat.succ_mul] at h
  rw [piece, piece, List.drop_append_of_le_length (by omega),
    List.take_append_of_le_length (by rw [List.length_drop]; omega)]

theorem piece_append_right {size count index : Nat} {xs : Bytes} (hxs : xs.length = count * size)
    (h : count ≤ index) (ys : Bytes) :
    piece size index (xs ++ ys) = piece size (index - count) ys := by
  have hplace : index * size = xs.length + (index - count) * size := by
    rw [hxs, ← Nat.add_mul, Nat.add_sub_cancel' h]
  rw [piece, piece, hplace, ← List.drop_drop, List.drop_left]

theorem piece_flipEach {size index : Nat} (hs : ¬size < 2) {bs : Bytes}
    (h : (index + 1) * size ≤ bs.length) :
    piece size index (flipEach size bs) = (piece size index bs).reverse := by
  induction index generalizing bs with
  | zero =>
    rw [Nat.zero_add, Nat.one_mul] at h
    have hfront : (bs.take size).reverse.length = size := by
      rw [List.length_reverse, List.length_take, Nat.min_eq_left h]
    rw [flipEach_of_le hs h, piece_append_left (by omega), piece, piece, Nat.zero_mul,
      List.drop_zero, List.drop_zero, List.take_of_length_le (Nat.le_of_eq hfront)]
  | succ index ih =>
    rw [Nat.succ_mul] at h
    have hfront : (bs.take size).reverse.length = 1 * size := by
      rw [List.length_reverse, List.length_take]
      omega
    have hback := @ih (bs.drop size) (by rw [List.length_drop]; omega)
    rw [flipEach_of_le hs (by omega), piece_append_right hfront (by omega), Nat.add_sub_cancel,
      hback, piece, piece, List.drop_drop, Nat.succ_mul, Nat.add_comm size]

end Bytes

namespace Records

open Record (markerSize)

variable {type : ElementType}

theorem elementOffset_eq_add (start : Nat) (type : ElementType) (index : Nat) :
    elementOffset start type index = start + elementOffset 0 type index := by
  unfold elementOffset
  omega

theorem elementOffset_of_lt {index : Nat} (h : index < type.blockSize) :
    elementOffset 0 type index = markerSize + index * type.size := by
  rw [elementOffset, Nat.div_eq_of_lt h, Nat.mod_eq_of_lt h]
  omega

theorem elementOffset_add_block (type : ElementType) (index : Nat) :
    elementOffset 0 type (index + type.blockSize) =
      type.blockSize * type.size + 2 * markerSize + elementOffset 0 type index := by
  rw [elementOffset, elementOffset, Nat.add_div_right _ type.blockSize_pos, Nat.add_mod_right,
    Nat.succ_mul]
  omega

theorem elementOffset_le_succ (type : ElementType) (index : Nat) :
    elementOffset 0 type index ≤ elementOffset 0 type (index + 1) := by
  have hpos := type.blockSize_pos
  induction index using Nat.strongRecOn with
  | ind index ih =>
    by_cases hlast : type.blockSize ≤ index
    · have hback := ih (index - type.blockSize) (by omega)
      have hfirst := elementOffset_add_block type (index - type.blockSize)
      have hnext := elementOffset_add_block type (index - type.blockSize + 1)
      rw [Nat.sub_add_cancel hlast] at hfirst
      rw [show index - type.blockSize + 1 + type.blockSize = index + 1 by omega] at hnext
      omega
    · have hfirst : elementOffset 0 type index = markerSize + index * type.size :=
        elementOffset_of_lt (Nat.lt_of_not_le hlast)
      by_cases hnext : index + 1 < type.blockSize
      · rw [hfirst, elementOffset_of_lt hnext, Nat.succ_mul]
        omega
      · have hblock := elementOffset_add_block type 0
        have hmul : index * type.size ≤ type.blockSize * type.size :=
          Nat.mul_le_mul_right _ (by omega)
        rw [show 0 + type.blockSize = index + 1 by omega] at hblock
        omega

theorem elementOffset_succ (start : Nat) (type : ElementType) (index : Nat) :
    elementOffset start type (index + 1) = elementOffset start type index + stride type index := by
  have hle := elementOffset_le_succ type index
  rw [elementOffset_eq_add start, elementOffset_eq_add start type index, stride]
  omega

theorem piece_framed (order : ByteOrder) {payloads : List Bytes} {left index : Nat}
    (hlengths : payloads.map List.length =
      (partSizes type.blockSize left).map (· * type.size)) (hindex : index < left) (rest : Bytes) :
    (((payloads.map (Record.framed order)).flatten ++ rest).drop
        (elementOffset 0 type index)).take type.size =
      Bytes.piece type.size index payloads.flatten := by
  have hpos := type.blockSize_pos
  induction payloads generalizing left index with
  | nil =>
    rw [partSizes_of_pos hpos (by omega)] at hlengths
    cases hlengths
  | cons front payloads ih =>
    rw [partSizes_of_pos hpos (by omega), List.map_cons, List.map_cons, List.cons.injEq] at hlengths
    obtain ⟨hfront, hlengths⟩ := hlengths
    have hlead : (order.encode markerSize front.length).length = markerSize :=
      ByteOrder.length_encode ..
    rw [List.map_cons, List.flatten_cons, List.flatten_cons, List.append_assoc]
    by_cases hfirst : index < type.blockSize
    · have hfits : (index + 1) * type.size ≤ front.length := by
        rw [hfront]
        exact Nat.mul_le_mul_right _ (by omega)
      rw [elementOffset_of_lt hfirst, Bytes.piece_append_left hfits, Record.framed,
        List.append_assoc, List.append_assoc, ← List.drop_drop, List.drop_left' hlead]
      exact Bytes.piece_append_left hfits _
    · have hblock : front.length = type.blockSize * type.size := by
        rw [hfront, Nat.min_eq_left (by omega)]
      have hframe : (Record.framed order front).length =
          type.blockSize * type.size + 2 * markerSize := by
        rw [Record.framed, List.length_append, List.length_append, hlead, hblock]
        omega
      have hoffset := elementOffset_add_block type (index - type.blockSize)
      rw [Nat.sub_add_cancel (by omega), ← hframe] at hoffset
      rw [hoffset, ← List.drop_drop, List.drop_left, Bytes.piece_append_right hblock (by omega)]
      exact ih hlengths (by omega)

theorem piece_reorder {order : ByteOrder} (hnumeric : type.isNumeric) {index : Nat} {bs : Bytes}
    (h : (index + 1) * type.size ≤ bs.length) :
    Bytes.piece type.size index (reorder order type bs) =
      if order.swaps then (Bytes.piece type.size index bs).reverse
      else Bytes.piece type.size index bs := by
  have hsize : ¬type.size < 2 := by
    cases type <;> simp [ElementType.isNumeric, ElementType.size] at *
  rw [reorder, hnumeric, Bool.true_and]
  split
  · exact Bytes.piece_flipEach hsize h
  · rfl

end Records

namespace Encoding

theorem mem_scanFrom {encoding : Encoding} {stream : Bytes} {streamLength : Nat}
    {seen : List String} {c : Cursor} {es : List Entry} (hc : (start stream).Ahead c)
    (h : encoding.scanFrom streamLength seen c = .ok es) {entry : Entry} (hentry : entry ∈ es) :
    ∃ data, (start stream).Ahead data ∧ data.position = entry.dataOffset ∧
      encoding.readHeader (.seek stream entry.offset) = .ok (some (entry.header, data)) := by
  induction es generalizing seen c with
  | nil => cases hentry
  | cons first es ih =>
    obtain ⟨hnil, -⟩ | ⟨header, data, next, back, hheader, hskip, hback, hes⟩ := scanFrom_eq_ok h
    · cases hnil
    · have hdata := hc.trans (readHeader_ahead hheader)
      obtain ⟨rfl, rfl⟩ := List.cons.inj hes
      rcases List.mem_cons.1 hentry with rfl | hentry
      · refine ⟨data, hdata, rfl, ?_⟩
        rw [show seek stream c.position = c from hc.eq_seek]
        exact hheader
      · exact ih (hdata.trans (skipPayload_ahead hskip)) hback hentry

end Encoding

theorem Keyword.values_eq_ok {α : Type} [Element α] {k : Keyword} (h : k.type = Element.type α) :
    k.values (α := α) = .ok (k.slots.map Element.decode) := by
  simp [values, checkType, h]

namespace KeywordFile

theorem load_eq_ok {file : KeywordFile} {stream : Bytes} {entry : Entry} {k : Keyword}
    (h : file.load stream entry = .ok k) :
    ∃ data next, file.encoding.readHeader (.seek stream entry.offset) =
        .ok (some (entry.header, data)) ∧
      file.encoding.readPayload entry.header data = .ok (k.payload, next) ∧
      k.type = entry.type ∧ k.count = entry.count := by
  obtain ⟨hsame, next, hdecode⟩ := load_eq_ok_iff.1 h
  obtain ⟨data, hheader, hpayload⟩ := Encoding.decodeNext_eq_ok.1 hdecode
  rw [hsame] at hheader hpayload
  exact ⟨data, next, hheader, hpayload, congrArg Header.type hsame, congrArg Header.count hsame⟩

theorem whole_of_load {file : KeywordFile} {stream : Bytes} {entry : Entry} {k : Keyword}
    (h : file.load stream entry = .ok k) : k.Whole := by
  obtain ⟨-, next, hdecode⟩ := load_eq_ok_iff.1 h
  exact Encoding.whole_of_decodeNext hdecode

theorem count_lt_of_load {file : KeywordFile} {stream : Bytes} {entry : Entry} {k : Keyword}
    (h : file.load stream entry = .ok k) : k.count < 2 ^ 64 := by
  obtain ⟨data, next, hheader, -, -, hcount⟩ := load_eq_ok h
  exact hcount ▸ (Encoding.readHeader_sound hheader).count

theorem whole_of_loadFrom {file : KeywordFile} {stream : Bytes} {part : Catalog} {name : String}
    {occurrence : Nat} {k : Keyword} (h : file.loadFrom stream part name occurrence = .ok k) :
    k.Whole := by
  unfold loadFrom at h
  split at h
  · exact whole_of_load h
  · cases h

theorem whole_of_loadOptional {file : KeywordFile} {stream : Bytes} {part : Catalog} {name : String}
    {k : Keyword} (h : file.loadOptional stream part name = .ok (some k)) : k.Whole := by
  unfold loadOptional at h
  split at h
  · obtain ⟨found, hload, hk⟩ := map_eq_ok.1 h
    cases hk
    exact whole_of_load hload
  · cases h

section Reading

variable {α : Type} [Element α] {order : ByteOrder} {type : ElementType} {values : List α}
  {stream : Bytes} {start : Nat}

theorem readStored_eq_ok {left first : Nat}
    (h : ∀ i, first ≤ i → i < first + left → ∃ x, values[i]? = some x ∧
      readFront order type (stream.drop (Records.elementOffset start type i)) = .ok x) :
    readStored order type left first (stream.drop (Records.elementOffset start type first)) =
      .ok ((values.drop first).take left) := by
  induction left generalizing first with
  | zero => rw [readStored, List.take_zero]
  | succ left ih =>
    obtain ⟨x, hx, hfront⟩ := h first (Nat.le_refl _) (by omega)
    obtain ⟨hlt, rfl⟩ := List.getElem?_eq_some_iff.1 hx
    have hback := @ih (first + 1) fun i hle hi => h i (by omega) (by omega)
    rw [Records.elementOffset_succ] at hback
    simp only [readStored, hfront, ok_bind, List.drop_drop, hback, pure_eq,
      List.drop_eq_getElem_cons hlt, List.take_succ_cons]

theorem readFront_of_readPayload {h : Header} {data next : Cursor} {payload : Bytes}
    (hnumeric : h.type.isNumeric)
    (hr : (Encoding.binary order).readPayload h data = .ok (payload, next)) {i : Nat}
    (hi : i < h.count) :
    readFront order h.type (data.rest.drop (Records.elementOffset 0 h.type i)) =
      .ok (Element.decode (Bytes.piece h.type.size i payload) : α) := by
  obtain ⟨bytes, hblocks, rfl⟩ := Encoding.readPayload_binary_eq_ok hr
  have hstored : Records.stored h = h.count :=
    if_neg (ElementType.size_ne_zero_of_isNumeric hnumeric)
  rw [hstored] at hblocks
  have hlength : (i + 1) * h.type.size ≤ bytes.length := by
    rw [Records.length_of_readBlocks hblocks]
    exact Nat.mul_le_mul_right _ hi
  obtain ⟨payloads, rfl, hlengths, hrest⟩ := Records.rest_of_readBlocks hblocks
  have hpiece := Records.piece_framed order hlengths hi next.rest
  rw [← hrest] at hpiece
  have hfull := Bytes.length_piece hlength
  simp only [readFront, hpiece, hfull, Nat.lt_irrefl, if_false,
    Records.piece_reorder hnumeric hlength]

theorem readStored_of_load {file : KeywordFile} {entry : Entry} {k : Keyword} {data : Cursor}
    (hencoding : file.encoding = .binary order) (hnumeric : entry.type.isNumeric)
    (hdata : (Cursor.start stream).Ahead data) (hplace : data.position = entry.dataOffset)
    (hheader : file.encoding.readHeader (.seek stream entry.offset) =
      .ok (some (entry.header, data)))
    (hload : file.load stream entry = .ok k) {first last : Nat} (hle : first ≤ last)
    (hlast : last ≤ entry.count) :
    readStored order entry.type (last - first) first
        (stream.drop (Records.elementOffset entry.dataOffset entry.type first)) =
      .ok (((k.slots.map Element.decode : List α).drop first).take (last - first)) := by
  obtain ⟨data', next, hheader', hpayload, htype, hcount⟩ := load_eq_ok hload
  rw [hheader] at hheader'
  cases hheader'
  rw [hencoding] at hpayload
  have hsize : k.type.size ≠ 0 := by
    rw [htype]
    exact ElementType.size_ne_zero_of_isNumeric hnumeric
  refine readStored_eq_ok fun i _ hi => ?_
  have hicount : i < k.count := by omega
  refine ⟨Element.decode (Bytes.piece k.type.size i k.payload), ?_, ?_⟩
  · rw [Keyword.slots_eq (whole_of_load hload) hsize, List.getElem?_map,
      Bytes.getElem?_slots hicount, Option.map_some]
  · have hrest : data.rest = stream.drop entry.dataOffset := by
      rw [← hplace, ← hdata.eq_seek]
      rfl
    have hfront := readFront_of_readPayload (α := α) (h := entry.header) hnumeric hpayload
      (hcount ▸ hicount)
    rw [hrest, List.drop_drop, ← Records.elementOffset_eq_add] at hfront
    rw [htype]
    exact hfront

/-- In every encoding a range of a numeric keyword is read as it is loaded. -/
theorem readRange_of_load {file : KeywordFile} {entry : Entry} {k : Keyword} {data : Cursor}
    (htype : Element.type α = entry.type) (hnumeric : entry.type.isNumeric)
    (hdata : (Cursor.start stream).Ahead data) (hplace : data.position = entry.dataOffset)
    (hheader : file.encoding.readHeader (.seek stream entry.offset) =
      .ok (some (entry.header, data)))
    (hload : file.load stream entry = .ok k) {first last : Nat} (hle : first ≤ last)
    (hlast : last ≤ entry.count) :
    file.readRange stream entry first last =
      .ok (((k.slots.map Element.decode : List α).drop first).take (last - first)) := by
  obtain ⟨-, -, -, -, hktype, -⟩ := load_eq_ok hload
  have hvalues : k.values (α := α) = .ok (k.slots.map Element.decode) :=
    Keyword.values_eq_ok (by rw [hktype, htype])
  rw [readRange, if_neg (not_not.2 htype.symm), if_neg (by omega)]
  split
  · simp only [hload, hvalues, ok_bind, pure_eq]
  · next order hencoding =>
    exact readStored_of_load hencoding hnumeric hdata hplace hheader hload hle hlast

theorem readElement_of_readRange {file : KeywordFile} {entry : Entry} {i : Nat}
    (hi : i < values.length)
    (h : file.readRange stream entry i (i + 1) = .ok ((values.drop i).take (i + 1 - i))) :
    file.readElement stream entry i = .ok values[i] := by
  rw [Nat.add_sub_cancel_left, List.drop_eq_getElem_cons hi, List.take_succ_cons] at h
  simp only [readElement, h, ok_bind, pure_eq]

end Reading

/-- A part of a numeric keyword that a scan found is that part of the whole keyword, in every
encoding. Ranges that leave the keyword and values of another type are refused. -/
theorem readRange_agrees_load {file scanned : KeywordFile} {stream : Bytes} {entry : Entry}
    (hscan : file.scan stream = .ok scanned) (hentry : entry ∈ scanned.catalog.entries)
    (hnumeric : entry.type.isNumeric) (α : Type) [Element α] :
    (Element.type α = entry.type →
      (∀ k, scanned.load stream entry = .ok k →
        ∃ values : List α, k.values = .ok values ∧ values.length = entry.count ∧
          (∀ first last, first ≤ last → last ≤ entry.count →
            scanned.readRange stream entry first last =
              .ok ((values.drop first).take (last - first))) ∧
          ∀ (i : Nat) (hi : i < values.length),
            scanned.readElement stream entry i = .ok values[i]) ∧
      (∀ first last, last < first ∨ entry.count < last →
        scanned.readRange (α := α) stream entry first last =
          .error (.outOfRange .element (max first last) entry.count)) ∧
      ∀ i, entry.count ≤ i → scanned.readElement (α := α) stream entry i =
        .error (.outOfRange .element (i + 1) entry.count)) ∧
    (Element.type α ≠ entry.type →
      (∀ first last, scanned.readRange (α := α) stream entry first last =
        .error (.typeMismatch entry.name (Element.type α).codeText entry.type.codeText)) ∧
      ∀ i, scanned.readElement (α := α) stream entry i =
        .error (.typeMismatch entry.name (Element.type α).codeText entry.type.codeText)) := by
  obtain ⟨es, hes, hscanned⟩ := bind_eq_ok.1 hscan
  cases hscanned
  obtain ⟨data, hdata, hplace, hheader⟩ := Encoding.mem_scanFrom (Ahead.refl _) hes hentry
  refine ⟨fun htype => ⟨fun k hload => ?_, fun first last hout => ?_, fun i hi => ?_⟩,
    fun htype => ⟨fun first last => ?_, fun i => ?_⟩⟩
  · obtain ⟨-, -, -, -, hktype, hkcount⟩ := load_eq_ok hload
    have hvalues : k.values (α := α) = .ok (k.slots.map Element.decode) :=
      Keyword.values_eq_ok (by rw [hktype, htype])
    have hsize : k.type.size ≠ 0 := by
      rw [hktype]
      exact ElementType.size_ne_zero_of_isNumeric hnumeric
    have hlength : (k.slots.map (Element.decode : Bytes → α)).length = entry.count := by
      rw [List.length_map, Keyword.length_slots (whole_of_load hload) hsize, hkcount]
    have hrange : ∀ first last, first ≤ last → last ≤ entry.count →
        readRange { file with catalog := ⟨es⟩ } stream entry first last =
          .ok (((k.slots.map (Element.decode : Bytes → α)).drop first).take (last - first)) :=
      fun first last => readRange_of_load htype hnumeric hdata hplace hheader hload
    exact ⟨_, hvalues, hlength, hrange, fun i hi =>
      readElement_of_readRange hi (hrange i (i + 1) (Nat.le_succ i) (by omega))⟩
  · rw [readRange, if_neg (not_not.2 htype.symm), if_pos hout]
  · rw [readElement, readRange, if_neg (not_not.2 htype.symm), if_pos (by omega), error_bind,
      Nat.max_eq_right (Nat.le_succ i)]
  · rw [readRange, if_pos (Ne.symm htype)]
  · rw [readElement, readRange, if_pos (Ne.symm htype), error_bind]

/-- A keyword of one record and one number more, read across the end of the first record. -/
theorem readRange_agrees_load_across :
    let name : Name := ⟨"PORO", by decide⟩
    let numbers : Keyword := ⟨name, .int, 1001, List.replicate 4000 1 ++ [2, 0, 0, 0], by
      rw [List.length_append, List.length_replicate]
      exact .inl rfl⟩
    let stream := Records.bytesOf .big numbers
    let file : KeywordFile := ⟨"RUN.INIT", .binary .big, stream.length, .empty⟩
    ∃ scanned entry, file.scan stream = .ok scanned ∧ entry ∈ scanned.catalog.entries ∧
      entry.type.isNumeric ∧ scanned.load stream entry = .ok numbers ∧
      scanned.readRange stream entry 999 1001 = .ok [(0x01010101 : Int32), 2] ∧
      scanned.readRange (α := Int32) stream entry 999 1002 =
        .error (.outOfRange .element 1002 1001) ∧
      scanned.readElement (α := Single) stream entry 0 =
        .error (.typeMismatch "PORO" "REAL" "INTE") := by
  intro name numbers stream file
  have hdecodes := Records.decodes_bytesOf (k := numbers) (by decide) .big
  have hall : (Encoding.binary .big).decodeAll (.start stream) = ([numbers], .endOfStream) := by
    have hnext := hdecodes 0 []
    rw [List.append_nil] at hnext
    rw [Cursor.start, Encoding.decodeAll_cons hnext, Encoding.decodeAll_nil]
  obtain ⟨es, hscan, hes⟩ := Encoding.scanFrom_of_decodeAll (Ahead.refl _) hall []
  obtain ⟨entry, rfl⟩ := List.length_eq_one_iff.1 hes.length_eq
  obtain ⟨next, hdecode⟩ := hes.decodes_getElem 0 (Nat.succ_pos 0) (Nat.succ_pos 0)
  have hheader : entry.header = numbers.header := (List.cons.inj hes.map_header).1
  have htype : entry.type = .int := congrArg Header.type hheader
  have hcount : entry.count = 1001 := congrArg Header.count hheader
  have hname : entry.name = "PORO" := congrArg Header.name hheader
  have hscanned : file.scan stream = .ok { file with catalog := ⟨[entry]⟩ } := by
    simp only [scan, Encoding.scan, file, hscan, ok_bind, pure_eq]
  have hnumeric : entry.type.isNumeric := by
    rw [htype]
    rfl
  have hload : load { file with catalog := ⟨[entry]⟩ } stream entry = .ok numbers :=
    load_of_decodeNext hheader hdecode
  have hint := readRange_agrees_load hscanned List.mem_cons_self hnumeric Int32
  have hsingle := readRange_agrees_load hscanned List.mem_cons_self hnumeric Single
  obtain ⟨values, hvalues, -, hrange, -⟩ := (hint.1 htype.symm).1 numbers hload
  have hout := (hint.1 htype.symm).2.1 999 1002 (.inr (by rw [hcount]; decide))
  have hmismatch := (hsingle.2 (by rw [htype]; decide)).2 0
  rw [hcount] at hout
  rw [hname, htype] at hmismatch
  refine ⟨_, entry, hscanned, List.mem_cons_self, hnumeric, hload, ?_, hout, hmismatch⟩
  rw [Keyword.values_eq_ok (k := numbers) rfl] at hvalues
  rw [hrange 999 1001 (by decide) (by rw [hcount]), ← Except.ok.inj hvalues]
  decide +kernel

end KeywordFile

end Reservoir
