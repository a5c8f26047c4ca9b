import Reservoir.Name

/-!
ASCII text. Its bytes and its characters have the same numbers, so both directions of UTF-8
are maps on it. A padded name is read back as the name.
-/

namespace Reservoir.Text

def charOf (b : UInt8) : Char := Char.ofNat b.toNat

def IsAsciiBytes (bs : Bytes) : Prop := ∀ b ∈ bs, b.toNat < 0x80

theorem toNat_charOf {b : UInt8} (h : b.toNat < 0x80) : (charOf b).toNat = b.toNat := by
  have hv : b.toNat.isValidChar := Or.inl (by omega)
  rw [charOf, Char.ofNat, dif_pos hv]
  rfl

theorem charOf_ofNat {c : Char} (h : isAscii c) : charOf (UInt8.ofNat c.toNat) = c := by
  have hc : c.toNat < 0x80 := by simpa [isAscii] using h
  rw [charOf, UInt8.toNat_ofNat_of_lt' (by change c.toNat < 256; omega), Char.ofNat_toNat]

theorem isAscii_of_isPrintableAscii {c : Char} (h : isPrintableAscii c) : isAscii c := by
  simp only [isPrintableAscii, isAscii, Bool.and_eq_true, decide_eq_true_eq] at h ⊢
  omega

theorem isAsciiBytes_asciiBytes {cs : List Char} (h : ∀ c ∈ cs, isAscii c) :
    IsAsciiBytes (asciiBytes cs) := by
  intro b hb
  obtain ⟨c, hc, rfl⟩ := List.mem_map.1 hb
  have hlt : c.toNat < 0x80 := by simpa [isAscii] using h c hc
  rwa [UInt8.toNat_ofNat_of_lt' (by change c.toNat < 256; omega)]

theorem map_charOf_asciiBytes {cs : List Char} (h : ∀ c ∈ cs, isAscii c) :
    (asciiBytes cs).map charOf = cs := by
  induction cs with
  | nil => rfl
  | cons c cs ih =>
    simp only [List.mem_cons, forall_eq_or_imp] at h
    rw [asciiBytes, List.map_cons, List.map_cons, charOf_ofNat h.1]
    exact congrArg _ (ih h.2)

theorem asciiBytes_map_charOf {bs : Bytes} (h : IsAsciiBytes bs) :
    asciiBytes (bs.map charOf) = bs := by
  induction bs with
  | nil => rfl
  | cons b bs ih =>
    simp only [IsAsciiBytes, List.mem_cons, forall_eq_or_imp] at h
    simp only [asciiBytes, List.map_cons, toNat_charOf h.1, UInt8.ofNat_toNat]
    exact congrArg _ (ih h.2)

theorem isAscii_map_charOf {bs : Bytes} (h : IsAsciiBytes bs) : ∀ c ∈ bs.map charOf, isAscii c := by
  intro c hc
  obtain ⟨b, hb, rfl⟩ := List.mem_map.1 hc
  simpa [isAscii, toNat_charOf (h b hb)] using h b hb

theorem pieces_ascii {bs : Bytes} (h : IsAsciiBytes bs) :
    pieces bs = bs.map fun b => some (charOf b) := by
  induction bs with
  | nil => simp [pieces]
  | cons b bs ih =>
    simp only [IsAsciiBytes, List.mem_cons, forall_eq_or_imp] at h
    rw [pieces_cons_of_lt h.1, ih h.2]
    rfl

theorem decodeUtf8?_ascii {bs : Bytes} (h : IsAsciiBytes bs) :
    decodeUtf8? bs = some (bs.map charOf) := by
  rw [decodeUtf8?, pieces_ascii h]
  clear h
  induction bs with
  | nil => rfl
  | cons b bs ih => simp [ih]

theorem decodeLenient_ascii {bs : Bytes} (h : IsAsciiBytes bs) :
    decodeLenient bs = bs.map charOf := by
  simp [decodeLenient, pieces_ascii h]

theorem encodeUtf8_ascii {cs : List Char} (h : ∀ c ∈ cs, isAscii c) :
    encodeUtf8 cs = asciiBytes cs := by
  induction cs with
  | nil => rfl
  | cons c cs ih =>
    simp only [List.mem_cons, forall_eq_or_imp] at h
    have hc : c.val.toNat ≤ 0x7f := by
      have := h.1
      simp only [isAscii, decide_eq_true_eq] at this
      exact Nat.le_of_lt_succ this
    rw [encodeUtf8, List.flatMap_cons, String.utf8EncodeChar, if_pos hc]
    exact congrArg _ (ih h.2)

theorem decodeLenient_asciiBytes {cs : List Char} (h : ∀ c ∈ cs, isAscii c) :
    decodeLenient (asciiBytes cs) = cs := by
  rw [decodeLenient_ascii (isAsciiBytes_asciiBytes h), map_charOf_asciiBytes h]

theorem decodeUtf8?_asciiBytes {cs : List Char} (h : ∀ c ∈ cs, isAscii c) :
    decodeUtf8? (asciiBytes cs) = some cs := by
  rw [decodeUtf8?_ascii (isAsciiBytes_asciiBytes h), map_charOf_asciiBytes h]

theorem utf8Size_of_isAscii {c : Char} (h : isAscii c) : c.utf8Size = 1 := by
  rw [Char.utf8Size_eq_one_iff]
  simp only [isAscii, decide_eq_true_eq] at h
  exact UInt32.le_iff_toNat_le.2 (Nat.le_of_lt_succ h)

theorem byteLength_ascii {cs : List Char} (h : ∀ c ∈ cs, isAscii c) :
    byteLength cs = cs.length := by
  induction cs with
  | nil => rfl
  | cons c cs ih =>
    simp only [List.mem_cons, forall_eq_or_imp] at h
    rw [byteLength, utf8Size_of_isAscii h.1, ih h.2, List.length_cons, Nat.add_comm]

theorem padAscii_eq {s : String} {width : Nat} (h : ∀ c ∈ s.toList, isAscii c)
    (hw : s.toList.length ≤ width) :
    padAscii s width = .ok (asciiBytes (padRight width ' ' s.toList)) := by
  have hall : s.toList.all isAscii := List.all_eq_true.2 h
  simp only [padAscii, hall, not_true, if_false, if_neg (Nat.not_lt.2 hw), asciiBytes, padRight,
    List.map_append, List.map_replicate]
  rfl

theorem padAscii_eq_ok {s : String} {width : Nat} {bs : Bytes} :
    padAscii s width = .ok bs ↔ (∀ c ∈ s.toList, isAscii c) ∧ s.toList.length ≤ width ∧
      bs = asciiBytes (padRight width ' ' s.toList) := by
  constructor
  · intro h
    have hfits : (∀ c ∈ s.toList, isAscii c) ∧ s.toList.length ≤ width := by
      unfold padAscii at h
      split at h
      · cases h
      · next hall =>
        split at h
        · cases h
        · next hw => exact ⟨List.all_eq_true.1 (Decidable.not_not.1 hall), Nat.le_of_not_lt hw⟩
    rw [padAscii_eq hfits.1 hfits.2] at h
    exact ⟨hfits.1, hfits.2, (Except.ok.inj h).symm⟩
  · rintro ⟨hascii, hw, rfl⟩
    exact padAscii_eq hascii hw

theorem trimSlot_padRight {cs : List Char} (h : ∀ c ∈ cs, isAscii c) (width : Nat) :
    trimSlot (asciiBytes (padRight width ' ' cs)) = String.ofList (dropTrailing isFiller cs) := by
  have hpadded : ∀ c ∈ padRight width ' ' cs, isAscii c := by
    intro c hc
    rcases List.mem_append.1 hc with hc | hc
    · exact h c hc
    · rw [List.eq_of_mem_replicate hc]
      rfl
  rw [trimSlot, decodeLenient_asciiBytes hpadded, padRight,
    dropTrailing_append_replicate isFiller cs ' ' _ rfl]

end Reservoir.Text

namespace Reservoir.Name

open Text

theorem isAscii_of_mem (name : Name) {c : Char} (h : c ∈ name.val.toList) : isAscii c :=
  isAscii_of_isPrintableAscii (name.property.printable c h)

def padded (name : Name) : List Char := padRight 8 ' ' name.val.toList

theorem length_padded (name : Name) : name.padded.length = 8 := by
  have := name.property.length_le
  simp only [padded, padRight, List.length_append, List.length_replicate]
  omega

theorem mem_padded {name : Name} {c : Char} (h : c ∈ name.padded) :
    c ∈ name.val.toList ∨ c = ' ' := by
  rcases List.mem_append.1 h with h | h
  · exact Or.inl h
  · exact Or.inr (List.eq_of_mem_replicate h)

theorem isAscii_of_mem_padded {name : Name} {c : Char} (h : c ∈ name.padded) : isAscii c := by
  rcases mem_padded h with h | rfl
  · exact name.isAscii_of_mem h
  · rfl

theorem padAscii_name (name : Name) : padAscii name.val 8 = .ok (asciiBytes name.padded) :=
  padAscii_eq (fun _ => name.isAscii_of_mem) name.property.length_le

theorem dropTrailing_val (name : Name) :
    dropTrailing (· == ' ') name.val.toList = name.val.toList := by
  refine dropTrailing_of_getLast? fun c hc => ?_
  have := name.property.last
  rw [hc] at this
  simpa using this

theorem check_ofList {name : Name} {cs : List Char} (hlen : byteLength cs ≤ 8)
    (hprint : ∀ c ∈ cs, isPrintableAscii c) (h : dropTrailing (· == ' ') cs = name.val.toList) :
    check (String.ofList cs) = .ok name := by
  have hall : cs.all isPrintableAscii := List.all_eq_true.2 hprint
  have hnil : dropTrailing (· == ' ') cs ≠ [] := by
    rw [h]
    exact name.property.ne_nil
  simp only [check, String.toList_ofList, dif_pos hlen, dif_pos hall, dif_pos hnil]
  exact congrArg _ (Subtype.ext (by simp only [h, String.ofList_toList]))

theorem check_padded (name : Name) : check (String.ofList name.padded) = .ok name := by
  refine check_ofList ?_ (fun c hc => ?_) ?_
  · refine Nat.le_of_eq ?_
    rw [byteLength_ascii fun _ => isAscii_of_mem_padded, length_padded]
  · rcases mem_padded hc with h | rfl
    · exact name.property.printable c h
    · rfl
  · rw [padded, padRight, dropTrailing_append_replicate _ _ _ _ (by rfl), dropTrailing_val]

theorem check_val (name : Name) : check name.val = .ok name := by
  have h := @check_ofList name name.val.toList
  rw [String.ofList_toList] at h
  refine h ?_ name.property.printable name.dropTrailing_val
  rw [byteLength_ascii fun _ => name.isAscii_of_mem]
  exact name.property.length_le

end Reservoir.Name
