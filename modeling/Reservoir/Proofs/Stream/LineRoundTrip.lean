import Reservoir.Proofs.Stream.Cataloguing
import Reservoir.Proofs.Stream.Dividing
import Reservoir.Proofs.Stream.Values

/-!
Streams of lines are read back as they were written. The lines of a keyword are as many as its
header makes a reader expect, so every keyword ends where the next one starts.
-/

namespace Reservoir

open Text Outcome

namespace Lines

def IsLine (cs : List Char) : Prop := ∀ c ∈ cs, isAscii c ∧ c ≠ '\n'

def lineBytes (cs : List Char) : Bytes := asciiBytes (cs ++ ['\n'])

theorem encodeUtf8_line {cs : List Char} (h : IsLine cs) :
    encodeUtf8 cs ++ [0xa] = lineBytes cs := by
  rw [encodeUtf8_ascii fun c hc => (h c hc).1, lineBytes, asciiBytes, asciiBytes, List.map_append]
  rfl

theorem frontLine_lineBytes {cs : List Char} (h : IsLine cs) (rest : Bytes) :
    frontLine (lineBytes cs ++ rest) = lineBytes cs := by
  have hplain : ∀ b ∈ asciiBytes cs, (!isLineFeed b) = true := by
    intro b hb
    obtain ⟨c, hc, rfl⟩ := List.mem_map.1 hb
    obtain ⟨hascii, hne⟩ := h c hc
    refine Bool.not_eq_true' _ ▸ beq_false_of_ne fun heq => hne ?_
    rw [← charOf_ofNat hascii, heq]
    rfl
  have hbytes : lineBytes cs ++ rest = asciiBytes cs ++ 0xa :: rest := by
    rw [lineBytes, asciiBytes, List.map_append, List.append_assoc]
    rfl
  rw [hbytes, frontLine, List.takeWhile_append_of_pos hplain, List.dropWhile_append_of_pos hplain,
    List.takeWhile_cons, List.dropWhile_cons, if_neg (by decide), if_neg (by decide),
    List.append_nil]
  rw [lineBytes, asciiBytes, asciiBytes, List.map_append]
  rfl

theorem readLine_lineBytes {cs : List Char} (h : IsLine cs) (place : Nat) (rest : Bytes) :
    readLine ⟨place, lineBytes cs ++ rest⟩ =
      .ok (some (cs ++ ['\n'], ⟨place + (lineBytes cs).length, rest⟩)) := by
  have hascii : ∀ c ∈ cs ++ ['\n'], isAscii c := by
    intro c hc
    rcases List.mem_append.1 hc with hc | hc
    · exact (h c hc).1
    · rw [List.mem_singleton.1 hc]
      rfl
  have hne : lineBytes cs ++ rest ≠ [] := by
    simp [lineBytes, asciiBytes]
  rw [readLine, if_neg hne]
  dsimp only
  rw [frontLine_lineBytes h, lineBytes, decodeUtf8?_asciiBytes hascii]
  simp only [Cursor.advance, List.drop_left]

theorem takeLines_lineBytes {lines : List (List Char)} (h : ∀ line ∈ lines, IsLine line)
    (name : String) (expected place : Nat) (rest : Bytes) :
    takeLines name expected lines.length ⟨place, (lines.map lineBytes).flatten ++ rest⟩ =
      .ok (lines.map (· ++ ['\n']), ⟨place + (lines.map lineBytes).flatten.length, rest⟩) := by
  induction lines generalizing place with
  | nil => rfl
  | cons line lines ih =>
    simp only [List.mem_cons, forall_eq_or_imp] at h
    rw [List.length_cons, takeLines, List.map_cons, List.flatten_cons, List.append_assoc,
      readLine_lineBytes h.1]
    simp only [ok_bind, ih h.2, pure_eq, List.map_cons, List.length_append, Nat.add_assoc]

theorem readLines_map {read : Nat → List Char → Outcome (Nat × Bytes)}
    {text : List Bytes → List Char} {count : Nat} {pieces : List (List Bytes)}
    (hread : ∀ piece ∈ pieces, ∀ found, found + piece.length ≤ count →
      read found (text piece) = .ok (found + piece.length, piece.flatten)) {found : Nat}
    (hcount : found + pieces.flatten.length ≤ count) :
    readLines read found (pieces.map text) =
      .ok (found + pieces.flatten.length, pieces.flatten.flatten) := by
  induction pieces generalizing found with
  | nil => rfl
  | cons piece pieces ih =>
    simp only [List.mem_cons, forall_eq_or_imp] at hread
    rw [List.flatten_cons, List.length_append] at hcount
    have hback : readLines read (found + piece.length) (pieces.map text) =
        .ok (found + piece.length + pieces.flatten.length, pieces.flatten.flatten) :=
      ih hread.2 (by omega)
    simp only [List.map_cons, readLines, hread.1 found (by omega), ok_bind, hback, pure_eq,
      List.flatten_cons, List.length_append, List.flatten_append, Nat.add_assoc]

end Lines

namespace Keyword

/-- A keyword that text can hold. Its elements are there, its count is a machine word, and no quote
ends its name. -/
structure Textual (k : Keyword) : Prop where
  name : '\'' ∉ k.name.val.toList
  count : k.count < UInt64.size
  whole : k.Whole
  slots : ∀ slot ∈ k.slots, k.type.Textual slot

end Keyword

namespace Lines

theorem dataLines_of_size_zero {k : Keyword} (h : k.type.size = 0) : dataLines k = [] := by
  simp [dataLines, ElementType.lineSizes, ElementType.recordSizes, h, parts]

theorem flatten_parts_slots {k : Keyword} (hk : k.Whole) (hsize : k.type.size ≠ 0) :
    (parts (k.type.lineSizes k.count) k.slots).flatten = k.slots :=
  flatten_parts (by rw [ElementType.sum_lineSizes hsize, Keyword.length_slots hk hsize])

theorem slot_of_mem_parts {k : Keyword} (h : k.Textual) (hsize : k.type.size ≠ 0)
    {piece : List Bytes} (hpiece : piece ∈ parts (k.type.lineSizes k.count) k.slots) {slot : Bytes}
    (hslot : slot ∈ piece) : slot.length = k.type.size ∧ k.type.Textual slot := by
  have hmem : slot ∈ k.slots := by
    rw [← flatten_parts_slots h.whole hsize]
    exact List.mem_flatten.2 ⟨piece, hpiece, hslot⟩
  exact ⟨Keyword.length_of_mem_slots h.whole hsize hmem, h.slots slot hmem⟩

theorem read_piece {k : Keyword} (h : k.Textual) (hsize : k.type.size ≠ 0) {piece : List Bytes}
    (hpiece : piece ∈ parts (k.type.lineSizes k.count) k.slots) {found : Nat}
    (hcount : found + piece.length ≤ k.count) :
    (if k.header.type.isString then readStrings k.header else readValues k.header) found
        (piece.flatMap (elementText k.type) ++ ['\n']) =
      .ok (found + piece.length, piece.flatten) := by
  have hslot : ∀ slot ∈ piece, slot.length = k.type.size ∧ k.type.Textual slot :=
    fun slot hslot => slot_of_mem_parts h hsize hpiece hslot
  split
  · next hstring =>
    have hascii : ∀ slot ∈ piece, slot.length = k.type.size ∧ IsAsciiBytes slot :=
      fun slot hs => ⟨(hslot slot hs).1,
        ElementType.isAsciiBytes_of_textual hstring (hslot slot hs).2⟩
    exact readStrings_flatMap hstring hascii hcount
  · next hstring =>
    exact readValues_flatMap (ElementType.isNumeric_of_size hsize hstring) hslot hcount

theorem payload_dataLines {k : Keyword} (h : k.Textual) :
    payload k.header ((dataLines k).map (· ++ ['\n'])) = .ok k.payload := by
  by_cases hsize : k.type.size = 0
  · have hnil : k.payload = [] :=
      List.eq_nil_of_length_eq_zero (by rw [h.whole, hsize, Nat.mul_zero])
    have hzero : k.header.type.size = 0 ∨ 0 = k.header.count := Or.inl hsize
    rw [dataLines_of_size_zero hsize, hnil, payload]
    simp only [List.map_nil, readLines, ok_bind, if_pos hzero]
    rfl
  · have hlength := Keyword.length_slots h.whole hsize
    have hparts := flatten_parts_slots h.whole hsize
    have hlines : (dataLines k).map (· ++ ['\n']) = (parts (k.type.lineSizes k.count) k.slots).map
        fun piece => piece.flatMap (elementText k.type) ++ ['\n'] := by
      rw [dataLines, List.map_map]
      rfl
    have hread := fun piece hpiece found =>
      @read_piece k h hsize piece hpiece found
    have hall := readLines_map hread (Nat.le_of_eq (by rw [hparts, hlength, Nat.zero_add]))
    rw [hparts, hlength, Keyword.flatten_slots h.whole hsize, Nat.zero_add] at hall
    have hfound : k.header.type.size = 0 ∨ k.count = k.header.count := Or.inr rfl
    rw [payload, hlines, hall, ok_bind]
    simp only [if_pos hfound]
    rfl

theorem isLine_of_isBare {word : List Char} (h : IsBare word) : IsLine word := by
  intro c hc
  refine ⟨h.isAscii hc, ?_⟩
  rintro rfl
  exact absurd (h.isBlank hc) (by decide)

@[simp] theorem isLine_nil : IsLine [] := by
  intro c hc
  cases hc

@[simp] theorem isLine_cons {c : Char} {cs : List Char} :
    IsLine (c :: cs) ↔ (isAscii c ∧ c ≠ '\n') ∧ IsLine cs :=
  List.forall_mem_cons

@[simp] theorem isLine_append {xs ys : List Char} :
    IsLine (xs ++ ys) ↔ IsLine xs ∧ IsLine ys :=
  List.forall_mem_append

theorem isLine_replicate (n : Nat) : IsLine (List.replicate n ' ') := by
  intro c hc
  rw [List.eq_of_mem_replicate hc]
  exact ⟨rfl, by decide⟩

theorem isLine_elementText {type : ElementType} (hsize : type.size ≠ 0) {slot : Bytes}
    (hlen : slot.length = type.size) (h : type.Textual slot) : IsLine (elementText type slot) := by
  by_cases hstring : type.isString
  · have hascii := ElementType.isAsciiBytes_of_textual hstring h
    have htext : IsLine (slot.map charOf) := by
      intro c hc
      refine ⟨isAscii_map_charOf hascii c hc, ?_⟩
      obtain ⟨b, hb, rfl⟩ := List.mem_map.1 hc
      intro hline
      refine ElementType.ne_lineFeed_of_textual hstring h hb (UInt8.toNat_inj.1 ?_)
      rw [← toNat_charOf (hascii b hb), hline]
      rfl
    rw [elementText_string hstring hascii]
    simp [htext, isAscii]
  · have hfield := (isField_elementText (ElementType.isNumeric_of_size hsize hstring) hlen h).1
    have hword := isLine_of_isBare hfield.isBare
    obtain ⟨n, htext⟩ := hfield.text_eq
    rw [htext]
    simp [hword, isLine_replicate, isAscii]

theorem isLine_header (k : Keyword) : IsLine k.header.line := by
  have hname : IsLine k.name.padded := by
    intro c hc
    refine ⟨Name.isAscii_of_mem_padded hc, ?_⟩
    rcases Name.mem_padded hc with hc | rfl
    · have hprint := k.name.property.printable c hc
      rintro rfl
      exact absurd hprint (by decide)
    · decide
  have hcode := isLine_of_isBare k.type.isBare_code
  have hcount := isLine_of_isBare (isBare_decimal k.count)
  rw [Keyword.header, Header.line_eq]
  simp [hname, hcode, hcount, padLeft, isLine_replicate, isAscii]

theorem isLine_dataLines {k : Keyword} (h : k.Textual) : ∀ line ∈ dataLines k, IsLine line := by
  intro line hline
  by_cases hsize : k.type.size = 0
  · rw [dataLines_of_size_zero hsize] at hline
    cases hline
  · obtain ⟨piece, hpiece, rfl⟩ := List.mem_map.1 hline
    intro c hc
    obtain ⟨slot, hslot, hc⟩ := List.mem_flatMap.1 hc
    obtain ⟨hlen, htext⟩ := slot_of_mem_parts h hsize hpiece hslot
    exact isLine_elementText hsize hlen htext c hc

theorem encode_eq {k : Keyword} (h : k.Textual) :
    encode k = lineBytes k.header.line ++ ((dataLines k).map lineBytes).flatten := by
  have hlines : (dataLines k).map (fun line => encodeUtf8 line ++ [0xa]) =
      (dataLines k).map lineBytes :=
    List.map_congr_left fun line hline => encodeUtf8_line (isLine_dataLines h line hline)
  rw [encode, List.map_cons, List.flatten_cons, encodeUtf8_line (isLine_header k), hlines]

theorem readHeader_line {k : Keyword} (h : k.Textual) (place : Nat) (rest : Bytes) :
    readHeader ⟨place, lineBytes k.header.line ++ rest⟩ =
      .ok (some (k.header, ⟨place + (lineBytes k.header.line).length, rest⟩)) := by
  have hline := readLine_lineBytes (isLine_header k) place rest
  have hheader : Header.ofLine (k.header.line ++ ['\n']) = .ok k.header :=
    Header.ofLine_line h.name k.type h.count
  rw [readHeader]
  split
  · next hread => rw [hline] at hread; cases hread
  · next hread => rw [hline] at hread; cases hread
  · next hread =>
    rw [hline] at hread
    cases hread
    rw [if_neg k.header.trim_line_ne_nil, hheader]
    rfl

theorem length_dataLines (k : Keyword) :
    (dataLines k).length = k.type.lineCount k.count := by
  rw [dataLines, List.length_map, length_parts, ElementType.length_lineSizes]

theorem dataLinesOf_lineBytes {k : Keyword} (h : k.Textual) (place : Nat) (rest : Bytes) :
    dataLinesOf k.header ⟨place, ((dataLines k).map lineBytes).flatten ++ rest⟩ =
      .ok ((dataLines k).map (· ++ ['\n']),
        ⟨place + ((dataLines k).map lineBytes).flatten.length, rest⟩) := by
  have hlines := takeLines_lineBytes (isLine_dataLines h) k.header.name
    (k.type.lineCount k.count) place rest
  rw [length_dataLines] at hlines
  exact hlines

theorem decodes_encode {k : Keyword} (h : k.Textual) : Encoding.text.Decodes (encode k) k := by
  intro place rest
  refine Encoding.decodeNext_eq_ok.2
    ⟨⟨place + (lineBytes k.header.line).length, ((dataLines k).map lineBytes).flatten ++ rest⟩,
      ?_, ?_⟩
  · rw [encode_eq h, List.append_assoc]
    exact readHeader_line h place _
  · simp only [Encoding.readPayload, dataLinesOf_lineBytes h, ok_bind, payload_dataLines h, pure_eq,
      encode_eq h, List.length_append, Nat.add_assoc]

end Lines

/-- A stream of lines is read back as it was written, and scanning it finds the same headers. -/
theorem Writer.decodeAll_writeAll_text {ks : List Keyword} (hks : ∀ k ∈ ks, k.Textual) :
    ∃ bytes, (start .text).writeAll ks = (⟨.text, bytes, ks.length⟩, none) ∧
      Encoding.text.decodeAll (.start bytes) = (ks, .endOfStream) ∧
      ∃ es, Encoding.text.scan bytes bytes.length = .ok es ∧
        es.map Entry.header = ks.map Keyword.header := by
  have hdecodes : ∀ k ∈ ks, ∃ bytes, Encoding.text.send k = ⟨bytes, none⟩ ∧
      Encoding.text.Decodes bytes k := fun k hk => ⟨_, rfl, Lines.decodes_encode (hks k hk)⟩
  obtain ⟨bytes, hwrite, hread⟩ := writeAll_of_decodes hdecodes [] 0
  rw [List.nil_append, Nat.zero_add] at hwrite
  obtain ⟨es, hscan, hall⟩ :=
    Encoding.scanFrom_of_decodeAll (Cursor.Ahead.refl (.start bytes)) (hread 0) []
  exact ⟨bytes, hwrite, hread 0, es, hscan, hall.map_header⟩

/-- Quotes, a carriage return and a NUL in strings, both words of truth, infinity and the least
magnitude below zero, and a message. -/
theorem Writer.decodeAll_writeAll_text_mixed :
    let strings : Keyword := ⟨⟨"WGNAMES", by decide⟩, .char, 1,
      [0x27, 0x20, 0x0d, 0x00, 0x27, 0x27, 0x41, 0x20], .inl rfl⟩
    let flags : Keyword :=
      ⟨⟨"LOGIHEAD", by decide⟩, .bool, 2, [0, 0, 0, 0, 255, 255, 255, 255], .inl rfl⟩
    let reals : Keyword :=
      ⟨⟨"SWAT", by decide⟩, .real, 2, [0, 0, 0x80, 0x7f, 1, 0, 0, 0x80], .inl rfl⟩
    let message : Keyword := ⟨⟨"ENDSOL", by decide⟩, .message, 3, [], .inl rfl⟩
    let ks := [strings, flags, reals, message]
    (∀ k ∈ ks, k.Textual) ∧
      ∃ bytes, (start .text).writeAll ks = (⟨.text, bytes, 4⟩, none) ∧
        Encoding.text.decodeAll (.start bytes) = (ks, .endOfStream) := by
  intro strings flags reals message ks
  have htextual : ∀ k ∈ ks, k.Textual := by
    intro k hk
    simp only [ks, List.mem_cons, List.not_mem_nil, or_false] at hk
    rcases hk with rfl | rfl | rfl | rfl
    · exact ⟨by decide, by decide, by decide, by decide⟩
    · exact ⟨by decide, by decide, by decide, by decide⟩
    · exact ⟨by decide, by decide, by decide, by decide⟩
    · exact ⟨by decide, by decide, by decide, by decide⟩
  obtain ⟨bytes, hwrite, hread, -⟩ := decodeAll_writeAll_text htextual
  exact ⟨htextual, bytes, hwrite, hread⟩

end Reservoir
