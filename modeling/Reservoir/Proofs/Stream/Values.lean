import Reservoir.Proofs.Decimal.Spelling
import Reservoir.Proofs.Stream.HeaderLine

/-!
Values on lines of text. Every slot is spelled as one field, and its word is read back as the
slot, bit by bit; strings are cut out by their width, whatever characters they hold.
-/

namespace Reservoir

open Text Outcome

namespace ElementType

/-- The slots that text can hold: any whole number, any number but a NaN, the two words for truth
and falsehood, and ASCII characters on a single line. -/
def Textual : ElementType → Bytes → Prop
  | .int, _ | .message, _ => True
  | .real, slot => ¬(Element.decode slot : Single).toNumber.IsNaN
  | .double, slot => ¬(Element.decode slot : Double).toNumber.IsNaN
  | .bool, slot => ByteOrder.little.decodeInt32 slot ∈ ([0, -1] : List Int32)
  | .char, slot | .fixed _, slot => ∀ b ∈ slot, b.toNat < 0x80 ∧ b ≠ 0xa

instance (type : ElementType) (slot : Bytes) : Decidable (type.Textual slot) :=
  match type with
  | .int | .message => isTrue trivial
  | .real => inferInstanceAs (Decidable ¬(Element.decode slot : Single).toNumber.IsNaN)
  | .double => inferInstanceAs (Decidable ¬(Element.decode slot : Double).toNumber.IsNaN)
  | .bool =>
    inferInstanceAs (Decidable (ByteOrder.little.decodeInt32 slot ∈ ([0, -1] : List Int32)))
  | .char | .fixed _ =>
    decidable_of_iff (slot.all fun b => b.toNat < 0x80 ∧ b ≠ 0xa)
      (by simp only [Textual, List.all_eq_true, decide_eq_true_eq])

theorem isAsciiBytes_of_textual {type : ElementType} (htype : type.isString) {slot : Bytes}
    (h : type.Textual slot) : IsAsciiBytes slot := by
  cases type with
  | char => exact fun b hb => (h b hb).1
  | fixed width => exact fun b hb => (h b hb).1
  | _ => cases htype

theorem ne_lineFeed_of_textual {type : ElementType} (htype : type.isString) {slot : Bytes}
    (h : type.Textual slot) {b : UInt8} (hb : b ∈ slot) : b ≠ 0xa := by
  cases type with
  | char => exact (h b hb).2
  | fixed width => exact (h b hb).2
  | _ => cases htype

theorem isNumeric_of_size {type : ElementType} (hsize : type.size ≠ 0)
    (hstring : ¬type.isString) : type.isNumeric := by
  cases type with
  | char => exact absurd rfl hstring
  | fixed width => exact absurd rfl hstring
  | message => exact absurd rfl hsize
  | _ => rfl

end ElementType

namespace Text

theorem isBare_signedDecimal (x : Int) : IsBare (signedDecimal x) := by
  cases x with
  | ofNat n => exact isBare_decimal n
  | negSucc n =>
    refine ⟨List.cons_ne_nil _ _, fun c hc => ?_⟩
    rcases List.mem_cons.1 hc with rfl | hc
    · rfl
    · exact (isBare_decimal (n + 1)).plain c hc

theorem readInt32?_signedDecimal (x : Int32) : readInt32? (signedDecimal x.toInt) = some x := by
  have hrange : (decide (Int32.minValue.toInt ≤ x.toInt) && decide (x.toInt ≤ Int32.maxValue.toInt))
      = true :=
    Bool.and_eq_true_iff.2 ⟨decide_eq_true x.minValue_le_toInt, decide_eq_true x.toInt_le⟩
  have hword := x.ofInt_toInt
  generalize x.toInt = value at hrange hword ⊢
  have hfilter : ((some value).filter fun x =>
      Int32.minValue.toInt ≤ x && x ≤ Int32.maxValue.toInt).map Int32.ofInt = some x := by
    rw [Option.filter_some, if_pos hrange, Option.map_some, hword]
  cases value with
  | ofNat n =>
    rw [← hfilter]
    unfold readInt32? signedDecimal
    dsimp only
    split
    · next rest hrest => exact absurd hrest (decimal_ne_cons (by decide) n rest)
    · next rest hrest => exact absurd hrest (decimal_ne_cons (by decide) n rest)
    · rw [readDigits?_decimal]
      rfl
  | negSucc n =>
    rw [← hfilter]
    change (((readDigits? (decimal (n + 1))).map fun n => -Int.ofNat n).filter _).map _ = _
    rw [readDigits?_decimal]
    rfl

end Text

namespace Element

theorem encode_decode_int {slot : Bytes} (h : slot.length = 4) :
    encode (decode slot : Int32) = slot := by
  have hback := ByteOrder.encode_decode .little slot
  rw [h] at hback
  have hlt : ByteOrder.little.decode slot < UInt32.size := by
    rw [← hback, ByteOrder.decode_encode]
    exact Nat.mod_lt _ (by decide)
  have hbits : (UInt32.ofNat (ByteOrder.little.decode slot)).toNat =
      ByteOrder.little.decode slot := UInt32.toNat_ofNat_of_lt' hlt
  change ByteOrder.little.encode 4 (UInt32.ofNat (ByteOrder.little.decode slot)).toNat = slot
  rw [hbits, hback]

theorem encode_decode_single {slot : Bytes} (h : slot.length = 4) :
    encode (decode slot : Single) = slot :=
  encode_decode_int h

theorem encode_decode_double {slot : Bytes} (h : slot.length = 8) :
    encode (decode slot : Double) = slot := by
  have hback := ByteOrder.encode_decode .little slot
  rw [h] at hback
  have hlt : ByteOrder.little.decode slot < UInt64.size := by
    rw [← hback, ByteOrder.decode_encode]
    exact Nat.mod_lt _ (by decide)
  have hbits : (UInt64.ofNat (ByteOrder.little.decode slot)).toNat =
      ByteOrder.little.decode slot := UInt64.toNat_ofNat_of_lt' hlt
  change ByteOrder.little.encode 8 (UInt64.ofNat (ByteOrder.little.decode slot)).toNat = slot
  rw [hbits, hback]

theorem encode_decode_bool {slot : Bytes} (h : slot.length = 4)
    (hword : ElementType.bool.Textual slot) : encode (decode slot : Bool) = slot := by
  have hback : ByteOrder.little.encodeInt32 (ByteOrder.little.decodeInt32 slot) = slot :=
    encode_decode_int h
  simp only [ElementType.Textual, List.mem_cons, List.not_mem_nil, or_false] at hword
  rw [← hback]
  rcases hword with hword | hword
  · rw [hword]
    rfl
  · rw [hword]
    rfl

end Element

theorem Single.ofNumber_toNumber {x : Single} (h : ¬x.toNumber.IsNaN) :
    ofNumber x.toNumber = x := by
  have hbits : BinaryFormat.single.ofNumber x.toNumber = x.bits.toNat :=
    BinaryFormat.ofNumber_toNumber x.bits.toNat_lt h
  rw [ofNumber, hbits, UInt32.ofNat_toNat]

theorem Double.ofNumber_toNumber {x : Double} (h : ¬x.toNumber.IsNaN) :
    ofNumber x.toNumber = x := by
  have hbits : BinaryFormat.double.ofNumber x.toNumber = x.bits.toNat :=
    BinaryFormat.ofNumber_toNumber x.bits.toNat_lt h
  rw [ofNumber, hbits, UInt64.ofNat_toNat]

namespace Lines

theorem elementText_numeric {type : ElementType} (htype : type.isNumeric) {slot : Bytes}
    (hlen : slot.length = type.size) (h : type.Textual slot) :
    ∃ word, IsField (elementText type slot) word ∧
      ∀ header : Header, header.type = type → tokenSlot header (.bare word) = .ok slot := by
  cases type with
  | int =>
    refine ⟨_, isField_padLeft (isBare_signedDecimal _) 11, fun header hheader => ?_⟩
    simp only [tokenSlot, hheader, valueSlot?, readInt32?_signedDecimal, Option.map_some,
      Element.encode_decode_int hlen]
  | real =>
    obtain ⟨word, hfield, hread⟩ :=
      @isField_exponentText _ BinaryFormat.wide_single (by decide) realStyle (by decide)
        (by decide) _ h
    have hvalue := congrArg Element.encode (Single.ofNumber_toNumber h)
    refine ⟨word, hfield, fun header hheader => ?_⟩
    simp only [tokenSlot, hheader, valueSlot?, hread, Option.map_some]
    exact congrArg _ (hvalue.trans (Element.encode_decode_single hlen))
  | double =>
    obtain ⟨word, hfield, hread⟩ :=
      @isField_exponentText _ BinaryFormat.wide_double (by decide) doubleStyle (by decide)
        (by decide) _ h
    have hvalue := congrArg Element.encode (Double.ofNumber_toNumber h)
    refine ⟨word, hfield, fun header hheader => ?_⟩
    simp only [tokenSlot, hheader, valueSlot?, hread, Option.map_some]
    exact congrArg _ (hvalue.trans (Element.encode_decode_double hlen))
  | bool =>
    have hback := Element.encode_decode_bool hlen h
    rw [elementText]
    cases hvalue : (Element.decode slot : Bool) with
    | false =>
      rw [hvalue] at hback
      refine ⟨['F'], ⟨.of_all (by decide) rfl, 1, rfl⟩, fun header hheader => ?_⟩
      simp only [tokenSlot, hheader]
      exact congrArg _ hback
    | true =>
      rw [hvalue] at hback
      refine ⟨['T'], ⟨.of_all (by decide) rfl, 1, rfl⟩, fun header hheader => ?_⟩
      simp only [tokenSlot, hheader]
      exact congrArg _ hback
  | char => cases htype
  | message => cases htype
  | fixed width => cases htype

theorem isField_elementText {type : ElementType} (htype : type.isNumeric) {slot : Bytes}
    (hlen : slot.length = type.size) (h : type.Textual slot) :
    IsField (elementText type slot) (trimStart (elementText type slot)) ∧
      ∀ header : Header, header.type = type →
        tokenSlot header (.bare (trimStart (elementText type slot))) = .ok slot := by
  obtain ⟨word, hfield, hread⟩ := elementText_numeric htype hlen h
  have hword := hfield.trimStart_append []
  rw [List.append_nil, List.append_nil] at hword
  rw [hword]
  exact ⟨hfield, hread⟩

theorem readTokens_map {h : Header} {word : Bytes → List Char} {piece : List Bytes}
    (hread : ∀ slot ∈ piece, tokenSlot h (.bare (word slot)) = .ok slot) {found : Nat}
    (hcount : found + piece.length ≤ h.count) :
    readTokens h found (piece.map fun slot => .bare (word slot)) =
      .ok (found + piece.length, piece.flatten) := by
  induction piece generalizing found with
  | nil => rfl
  | cons slot piece ih =>
    simp only [List.mem_cons, forall_eq_or_imp] at hread
    rw [List.length_cons] at hcount
    have hback : readTokens h (found + 1) (piece.map fun slot => .bare (word slot)) =
        .ok (found + 1 + piece.length, piece.flatten) := ih hread.2 (by omega)
    have hlt : found < h.count := by omega
    have hsum : found + 1 + piece.length = found + (piece.length + 1) := by omega
    simp only [List.map_cons, readTokens, if_pos hlt, hread.1, ok_bind, hback, pure_eq, hsum,
      List.length_cons, List.flatten_cons]

theorem readValues_flatMap {h : Header} (htype : h.type.isNumeric) {piece : List Bytes}
    (hpiece : ∀ slot ∈ piece, slot.length = h.type.size ∧ h.type.Textual slot) {found : Nat}
    (hcount : found + piece.length ≤ h.count) :
    readValues h found (piece.flatMap (elementText h.type) ++ ['\n']) =
      .ok (found + piece.length, piece.flatten) := by
  have hfield : ∀ slot ∈ piece,
      IsField (elementText h.type slot) (trimStart (elementText h.type slot)) := fun slot hslot =>
    (isField_elementText htype (hpiece slot hslot).1 (hpiece slot hslot).2).1
  have hread : ∀ slot ∈ piece,
      tokenSlot h (.bare (trimStart (elementText h.type slot))) = .ok slot := fun slot hslot =>
    (isField_elementText htype (hpiece slot hslot).1 (hpiece slot hslot).2).2 h rfl
  have hlast : ∀ c, (piece.flatMap (elementText h.type)).getLast? = some c →
      isLineEnd c = false := fun c hc =>
    isLineEnd_of_not_blank (getLast?_flatMap hfield hc)
  rw [readValues, tokenize, dropTrailing_lineFeed hlast, tokensOf_flatMap hfield, ok_bind]
  exact readTokens_map hread hcount

theorem splitAtByte?_ascii {cs : List Char} (h : ∀ c ∈ cs, isAscii c) (rest : List Char) :
    splitAtByte? cs.length (cs ++ rest) = some (cs, rest) := by
  induction cs with
  | nil => simp [splitAtByte?]
  | cons c cs ih =>
    simp only [List.mem_cons, forall_eq_or_imp] at h
    have hc : c.utf8Size = 1 := utf8Size_of_isAscii h.1
    rw [List.length_cons, List.cons_append, splitAtByte?, hc, if_pos (Nat.le_add_left ..),
      Nat.add_sub_cancel, ih h.2]
    rfl

theorem elementText_string {type : ElementType} (htype : type.isString) {slot : Bytes}
    (h : IsAsciiBytes slot) :
    elementText type slot = ' ' :: '\'' :: slot.map charOf ++ ['\''] := by
  cases type with
  | char => rw [elementText, decodeLenient_ascii h]
  | fixed width => rw [elementText, decodeLenient_ascii h]
  | _ => cases htype

theorem readSlots_flatMap {h : Header} (htype : h.type.isString) {piece : List Bytes}
    (hpiece : ∀ slot ∈ piece, slot.length = h.type.size ∧ IsAsciiBytes slot) {fuel found : Nat}
    (hfuel : piece.length ≤ fuel) (hcount : found + piece.length ≤ h.count) (line : List Char) :
    readSlots h line fuel found (piece.flatMap (elementText h.type)) =
      .ok (found + piece.length, piece.flatten) := by
  induction piece generalizing fuel found with
  | nil =>
    cases fuel with
    | zero => rfl
    | succ fuel => rfl
  | cons slot piece ih =>
    simp only [List.mem_cons, forall_eq_or_imp] at hpiece
    obtain ⟨⟨hlen, hascii⟩, htail⟩ := hpiece
    rw [List.length_cons] at hfuel hcount
    obtain ⟨fuel, rfl⟩ : ∃ n, fuel = n + 1 := ⟨fuel - 1, by omega⟩
    have hback : readSlots h line fuel (found + 1) (piece.flatMap (elementText h.type)) =
        .ok (found + 1 + piece.length, piece.flatten) := ih htail (by omega) (by omega)
    have hlt : found < h.count := by omega
    have hsum : found + 1 + piece.length = found + (piece.length + 1) := by omega
    have hstart : ((slot :: piece).flatMap (elementText h.type)).dropWhile (· == ' ') =
        '\'' :: (slot.map charOf ++ '\'' :: piece.flatMap (elementText h.type)) := by
      rw [List.flatMap_cons, elementText_string htype hascii]
      simp
    have hsplit : splitSlot? h.type.size
        ('\'' :: (slot.map charOf ++ '\'' :: piece.flatMap (elementText h.type))) =
        some (slot.map charOf, piece.flatMap (elementText h.type)) := by
      have hwidth := splitAtByte?_ascii (isAscii_map_charOf hascii)
        ('\'' :: piece.flatMap (elementText h.type))
      rw [List.length_map, hlen] at hwidth
      simp only [splitSlot?, hwidth]
    have hpad : padAscii (String.ofList (slot.map charOf)) h.type.size = .ok slot := by
      have htext : ∀ c ∈ (String.ofList (slot.map charOf)).toList, isAscii c := by
        rw [String.toList_ofList]
        exact isAscii_map_charOf hascii
      rw [padAscii_eq htext (by simp [hlen]), String.toList_ofList, padRight, List.length_map, hlen,
        Nat.sub_self, List.replicate_zero, List.append_nil, asciiBytes_map_charOf hascii]
    simp only [readSlots, hstart, hsplit, if_pos hlt, hpad, ok_bind, hback, pure_eq, hsum,
      List.length_cons, List.flatten_cons]

theorem length_le_flatMap {α β : Type} {f : α → List β} {xs : List α} (h : ∀ x ∈ xs, f x ≠ []) :
    xs.length ≤ (xs.flatMap f).length := by
  induction xs with
  | nil => exact Nat.le_refl _
  | cons x xs ih =>
    simp only [List.mem_cons, forall_eq_or_imp] at h
    have hx := List.length_pos_iff.2 h.1
    have hxs := ih h.2
    rw [List.flatMap_cons, List.length_append, List.length_cons]
    omega

theorem readStrings_flatMap {h : Header} (htype : h.type.isString) {piece : List Bytes}
    (hpiece : ∀ slot ∈ piece, slot.length = h.type.size ∧ IsAsciiBytes slot) {found : Nat}
    (hcount : found + piece.length ≤ h.count) :
    readStrings h found (piece.flatMap (elementText h.type) ++ ['\n']) =
      .ok (found + piece.length, piece.flatten) := by
  have hlast : ∀ c, (piece.flatMap (elementText h.type)).getLast? = some c →
      isLineEnd c = false := by
    intro c hc
    rcases List.eq_nil_or_concat piece with rfl | ⟨front, slot, rfl⟩
    · cases hc
    · have hslot := (hpiece slot (by simp)).2
      rw [List.concat_eq_append, List.flatMap_append, List.flatMap_singleton,
        elementText_string htype hslot, List.getLast?_append, List.getLast?_concat,
        Option.some_or] at hc
      cases hc
      rfl
  have hfuel : piece.length ≤ (piece.flatMap (elementText h.type) ++ ['\n']).length := by
    have hpos : ∀ slot ∈ piece, elementText h.type slot ≠ [] := by
      intro slot hslot
      rw [elementText_string htype (hpiece slot hslot).2]
      exact List.cons_ne_nil _ _
    have hlength := length_le_flatMap hpos
    rw [List.length_append]
    omega
  rw [readStrings, dropTrailing_lineFeed hlast]
  exact readSlots_flatMap htype hpiece hfuel hcount _

end Lines

end Reservoir
