import Reservoir.Proofs.Keyword.Changes
import Reservoir.Proofs.Keyword.Contents
import Reservoir.Proofs.Stream.Holding

/-!
Strings in padded slots. A slot is read without the blanks and NULs at its end, while a text that is
compared with it loses only its blanks; so a stored string equals itself unless, blanks aside, it
ends in a NUL.
-/

namespace Reservoir

open Outcome

namespace Text

def dropBlanks (s : String) : List Char := dropTrailing (· == ' ') s.toList

def dropFillers (s : String) : List Char := dropTrailing isFiller s.toList

/-- Whether the last character that is no blank is a NUL. -/
def EndsInNul (s : String) : Prop := (dropBlanks s).getLast? = some '\x00'

instance (s : String) : Decidable (EndsInNul s) := inferInstanceAs (Decidable (_ = _))

def FitsSlot (width : Nat) (s : String) : Prop :=
  (∀ c ∈ s.toList, isAscii c) ∧ s.toList.length ≤ width

instance (width : Nat) (s : String) : Decidable (FitsSlot width s) :=
  decidable_of_iff ((s.toList.all isAscii && s.toList.length ≤ width) = true) (by simp [FitsSlot])

def paddedSlot (width : Nat) (s : String) : Bytes := asciiBytes (padRight width ' ' s.toList)

theorem length_paddedSlot {width : Nat} {s : String} (h : FitsSlot width s) :
    (paddedSlot width s).length = width :=
  length_padAscii (padAscii_eq h.1 h.2)

theorem length_of_mem_map_paddedSlot {width : Nat} {values : List String}
    (h : ∀ s ∈ values, FitsSlot width s) {slot : Bytes}
    (hslot : slot ∈ values.map (paddedSlot width)) : slot.length = width := by
  obtain ⟨s, hs, rfl⟩ := List.mem_map.1 hslot
  exact length_paddedSlot (h s hs)

theorem dropTrailing_eq_self_iff {p : Char → Bool} {cs : List Char} :
    dropTrailing p cs = cs ↔ ∀ c, cs.getLast? = some c → p c = false := by
  refine ⟨fun h c hc => ?_, dropTrailing_of_getLast?⟩
  rw [← h] at hc
  exact getLast?_dropTrailing hc

theorem dropTrailing_dropTrailing {p q : Char → Bool} (h : ∀ c, q c → p c) (cs : List Char) :
    dropTrailing p (dropTrailing q cs) = dropTrailing p cs := by
  induction cs using List.reverseRecOn with
  | nil => rfl
  | append_singleton cs c ih =>
    rw [dropTrailing_concat q]
    split
    · next hq => rw [ih, dropTrailing_concat p, if_pos (h c hq)]
    · rfl

/-- Fillers and blanks are dropped alike just where no NUL is laid bare. -/
theorem dropFillers_eq_dropBlanks_iff {s : String} :
    dropFillers s = dropBlanks s ↔ ¬EndsInNul s := by
  have hblank : ∀ c : Char, (c == ' ') → isFiller c := by
    intro c hc
    simp [isFiller, hc]
  rw [dropFillers, ← dropTrailing_dropTrailing hblank, ← dropBlanks, dropTrailing_eq_self_iff,
    EndsInNul]
  constructor
  · intro h hnul
    exact Bool.noConfusion (h _ hnul)
  · intro h c hc
    have hspace : (c == ' ') = false := getLast?_dropTrailing (p := (· == ' ')) hc
    have hzero : c ≠ '\x00' := fun hzero => h (hzero ▸ hc)
    simp [isFiller, hspace, hzero]

end Text

namespace Keyword

open Text

/-- What an element answers that holds a string. Up to blanks it is the string and equals just the
same texts, unless the string ends in a NUL, which makes it differ from itself. -/
structure Reads (k : Keyword) (index : Nat) (s : String) : Prop where
  getString : k.getString index = .ok (String.ofList (dropFillers s))
  stringEq (text : String) :
    k.stringEq index text = .ok (decide (dropFillers s = dropBlanks text))
  self : k.stringEq index s = .ok (decide ¬EndsInNul s)
  plain : ¬EndsInNul s → k.getString index = .ok (String.ofList (dropBlanks s)) ∧
    ∀ text, k.stringEq index text = .ok (decide (dropBlanks s = dropBlanks text))

theorem getString_eq_ok {k : Keyword} (hk : k.Whole) (hstring : k.type.isString) {index : Nat}
    (hi : index < k.count) : k.getString index = .ok (trimSlot (k.slot index)) := by
  rw [Keyword.getString, checkString_eq hstring, checkIndex_eq hi, readSlot_eq hk hi, ok_bind,
    ok_bind, ok_bind, pure_eq]

theorem reads_of_slot {k : Keyword} (hk : k.Whole) {index : Nat} {s : String}
    (hstring : k.type.isString) (hi : index < k.count) (hfits : FitsSlot k.type.size s)
    (hslot : k.slot index = paddedSlot k.type.size s) : k.Reads index s := by
  have hget : k.getString index = .ok (String.ofList (dropFillers s)) := by
    rw [getString_eq_ok hk hstring hi, hslot, paddedSlot, trimSlot_padRight hfits.1]
    rfl
  have heq : ∀ text,
      k.stringEq index text = .ok (decide (dropFillers s = dropBlanks text)) := by
    intro text
    rw [Keyword.stringEq, hget, ok_bind, pure_eq, beq_eq_decide]
    exact congrArg _ (decide_eq_decide.2 String.ofList_inj)
  refine ⟨hget, heq, ?_, fun hplain => ?_⟩
  · rw [heq]
    exact congrArg _ (decide_eq_decide.2 dropFillers_eq_dropBlanks_iff)
  · rw [← dropFillers_eq_dropBlanks_iff.2 hplain]
    exact ⟨hget, heq⟩

section Slots

variable {k k' : Keyword} {index : Nat}

theorem AgreesOutside.slot_eq (h : k.AgreesOutside k' index) {other : Nat}
    (hother : other ≠ index) : k'.slot other = k.slot other := by
  rw [slot, slot, h.type]
  apply List.ext_getElem?
  intro place
  rw [List.getElem?_take, List.getElem?_take]
  split
  · next hplace =>
    rw [List.getElem?_drop, List.getElem?_drop]
    refine h.byte _ fun hslot => hother ?_
    have hlow : index < other + 1 := by
      refine Nat.lt_of_mul_lt_mul_right (a := k.type.size) ?_
      rw [Nat.succ_mul]
      exact Nat.lt_of_le_of_lt hslot.1 (Nat.add_lt_add_left hplace _)
    have hhigh : other < index + 1 :=
      Nat.lt_of_mul_lt_mul_right (Nat.lt_of_le_of_lt (Nat.le_add_right ..) hslot.2)
    omega
  · rfl

theorem AgreesOutside.reads_iff (hk : k.Whole) (hk' : k'.Whole) (h : k.AgreesOutside k' index)
    {other : Nat} (hother : other ≠ index) :
    k'.getString other = k.getString other ∧ k'.stringEq other = k.stringEq other := by
  have hget : k'.getString other = k.getString other := by
    by_cases hi : other < k.count
    · simp only [Keyword.getString, checkString, checkIndex, mismatch, readSlot_eq hk hi,
        readSlot_eq hk' (h.count ▸ hi), h.slot_eq hother, h.type, h.count, h.name]
    · simp only [Keyword.getString, checkString, checkIndex, mismatch, if_neg hi, error_bind,
        h.type, h.count, h.name]
  exact ⟨hget, funext fun text => by rw [Keyword.stringEq, Keyword.stringEq, hget]⟩

theorem exists_setString_iff (hk : k.Whole) {s : String} :
    (∃ k', k.setString index s = .ok k') ↔
      k.type.isString ∧ index < k.count ∧ FitsSlot k.type.size s := by
  refine ⟨fun ⟨k', h⟩ => @fits_of_apply k k' (.setString index s) h, fun h => ?_⟩
  obtain ⟨k', hk', -⟩ := @exists_apply k hk (.setString index s) h
  exact ⟨k', hk'⟩

theorem slot_setString (hk : k.Whole) {s : String} (h : k.setString index s = .ok k') :
    k'.slot index = paddedSlot k.type.size s ∧ k'.Whole ∧ k.AgreesOutside k' index := by
  obtain ⟨⟨⟩, -, h⟩ := bind_eq_ok.1 h
  obtain ⟨⟨⟩, hindex, h⟩ := bind_eq_ok.1 h
  split at h
  · next slot hslot =>
    obtain ⟨-, -, rfl⟩ := padAscii_eq_ok.1 hslot
    obtain ⟨k'', hreplace, hdone⟩ :=
      exists_replaceSlot hk (lt_of_checkIndex hindex) (length_padAscii hslot)
    cases h.symm.trans hreplace
    exact hdone
  · cases h

theorem stringSlots_eq_ok {width : Nat} {values : List String}
    {slots : { bs : List Bytes // ∀ b ∈ bs, b.length = width }} :
    stringSlots width values = .ok slots ↔
      (∀ s ∈ values, FitsSlot width s) ∧ slots.val = values.map (paddedSlot width) := by
  induction values generalizing slots with
  | nil =>
    rw [stringSlots, List.map_nil, and_iff_right (List.forall_mem_nil _), Except.ok.injEq,
      Subtype.ext_iff, eq_comm]
  | cons s values ih =>
    rw [List.forall_mem_cons, List.map_cons]
    constructor
    · intro h
      unfold stringSlots at h
      split at h
      · cases h
      · next slot hslot =>
        obtain ⟨hascii, hwidth, rfl⟩ := padAscii_eq_ok.1 hslot
        obtain ⟨back, hback, h⟩ := bind_eq_ok.1 h
        cases h
        obtain ⟨hfits, hslots⟩ := ih.1 hback
        exact ⟨⟨⟨hascii, hwidth⟩, hfits⟩, congrArg _ hslots⟩
    · rintro ⟨⟨hs, hfits⟩, hslots⟩
      have hslot := padAscii_eq hs.1 hs.2
      have hback := (@ih ⟨_, fun _ => length_of_mem_map_paddedSlot hfits⟩).2 ⟨hfits, rfl⟩
      unfold stringSlots
      split
      · next hfault => cases hslot.symm.trans hfault
      · next slot hdone =>
        rw [hback, ok_bind, pure_eq]
        obtain rfl := Except.ok.inj (hslot.symm.trans hdone)
        exact congrArg _ (Subtype.ext hslots.symm)

theorem payload_of_ofStringSlots {name : String} {type : ElementType} {values : List String}
    (h : ofStringSlots name type values = .ok k) :
    (∀ s ∈ values, FitsSlot type.size s) ∧
      k.payload = (values.map (paddedSlot type.size)).flatten := by
  obtain ⟨checked, -, h⟩ := bind_eq_ok.1 h
  obtain ⟨slots, hslots, h⟩ := bind_eq_ok.1 h
  obtain ⟨hfits, hval⟩ := stringSlots_eq_ok.1 hslots
  cases h
  exact ⟨hfits, congrArg List.flatten hval⟩

theorem exists_ofStringSlots_iff {name : String} {type : ElementType} {values : List String} :
    (∃ k, ofStringSlots name type values = .ok k) ↔
      (∃ checked, Name.check name = .ok checked) ∧ ∀ s ∈ values, FitsSlot type.size s := by
  constructor
  · rintro ⟨k, h⟩
    exact ⟨⟨k.name, (answers_of_ofStringSlots h).name⟩, (payload_of_ofStringSlots h).1⟩
  · rintro ⟨⟨checked, hname⟩, hfits⟩
    have hslots := (@stringSlots_eq_ok type.size values
      ⟨_, fun _ => length_of_mem_map_paddedSlot hfits⟩).2 ⟨hfits, rfl⟩
    exact ⟨_, by rw [ofStringSlots, hname, ok_bind, hslots, ok_bind, pure_eq]⟩

theorem slot_of_ofStringSlots {name : String} {type : ElementType} {values : List String}
    (hsize : type.size ≠ 0) (h : ofStringSlots name type values = .ok k) {s : String}
    (hs : values[index]? = some s) : k.slot index = paddedSlot type.size s := by
  obtain ⟨-, htype, hcount⟩ := answers_of_ofStringSlots h
  obtain ⟨hfits, hpayload⟩ := payload_of_ofStringSlots h
  have hslots : k.slots = values.map (paddedSlot type.size) := by
    rw [slots_eq (whole_of_ofStringSlots h) (htype ▸ hsize), hcount, hpayload, htype,
      ← List.length_map (paddedSlot type.size)]
    exact Bytes.slots_flatten fun _ => length_of_mem_map_paddedSlot hfits
  have hi : index < k.count := hcount ▸ (List.getElem?_eq_some_iff.1 hs).1
  have hslot := getElem?_slots (whole_of_ofStringSlots h) (htype ▸ hsize) hi
  rw [hslots, List.getElem?_map, hs] at hslot
  exact (Option.some.inj hslot).symm

end Slots

/-- What storing a string in an element does: it is done just where the string fits, the element
then holds the string, and no other element changes. -/
structure Takes (k : Keyword) (index : Nat) (s : String) : Prop where
  accepts : (∃ k', k.setString index s = .ok k') ↔
    k.type.isString ∧ index < k.count ∧ FitsSlot k.type.size s
  reads {k' : Keyword} (h : k.setString index s = .ok k') : k'.Reads index s
  others {k' : Keyword} (h : k.setString index s = .ok k') {other : Nat} (hother : other ≠ index) :
    k'.slot other = k.slot other ∧ k'.getString other = k.getString other ∧
      k'.stringEq other = k.stringEq other

/-- What strings make up: there is a keyword just where the name is one and every string fits, and
its elements hold the strings one by one. -/
structure Makes (made : Outcome Keyword) (name : String) (type : ElementType)
    (values : List String) : Prop where
  accepts : (∃ k, made = .ok k) ↔
    (∃ checked, Name.check name = .ok checked) ∧ ∀ s ∈ values, FitsSlot type.size s
  answers {k : Keyword} (h : made = .ok k) : k.Answers ⟨name, type, values.length⟩
  reads {k : Keyword} (h : made = .ok k) {index : Nat} {s : String}
    (hs : values[index]? = some s) : k.Reads index s

theorem takes_setString {k : Keyword} (hk : k.Whole) (index : Nat) (s : String) :
    k.Takes index s where
  accepts := exists_setString_iff hk
  reads {k'} h := by
    obtain ⟨hstring, hi, hfits⟩ := (exists_setString_iff hk).1 ⟨k', h⟩
    obtain ⟨hslot, hwhole, hother⟩ := slot_setString hk h
    have htype := hother.type
    exact reads_of_slot hwhole (htype ▸ hstring) (hother.count ▸ hi) (htype ▸ hfits)
      (htype ▸ hslot)
  others h _ hother := by
    obtain ⟨-, hwhole, hagrees⟩ := slot_setString hk h
    exact ⟨hagrees.slot_eq hother, hagrees.reads_iff hk hwhole hother⟩

theorem makes_ofStringSlots (name : String) {type : ElementType} (hstring : type.isString)
    (values : List String) : Makes (ofStringSlots name type values) name type values where
  accepts := exists_ofStringSlots_iff
  answers h := answers_of_ofStringSlots h
  reads {k} h index s hs := by
    have hsize := ElementType.size_ne_zero_of_isString hstring
    obtain ⟨-, htype, hcount⟩ := answers_of_ofStringSlots h
    have hfits := (payload_of_ofStringSlots h).1 s (List.mem_of_getElem? hs)
    have hi := (List.getElem?_eq_some_iff.1 hs).1
    exact reads_of_slot (whole_of_ofStringSlots h) (htype ▸ hstring) (hcount ▸ hi) (htype ▸ hfits)
      (htype ▸ slot_of_ofStringSlots hsize h hs)

/-- A stored string is read and compared up to the blanks at its end, however it was stored; only
a string that ends in a NUL differs from itself. -/
theorem stored_string_reads (k : Keyword) (index : Nat) (s name : String) (values : List String)
    (width : Nat) : (k.Whole → k.Takes index s) ∧ Makes (ofStrings name values) name .char values ∧
      (∀ hwidth : 1 ≤ width ∧ width ≤ 999,
        Makes (ofFixedStrings name width values) name (.fixed ⟨width, hwidth⟩) values) ∧
      (¬(1 ≤ width ∧ width ≤ 999) →
        ofFixedStrings name width values = reject (.widthOutOfRange width)) := by
  refine ⟨fun hk => takes_setString hk index s, makes_ofStringSlots name rfl values,
    fun hwidth => ?_, fun hwidth => ?_⟩
  · rw [ofFixedStrings, dif_pos hwidth]
    exact makes_ofStringSlots name rfl values
  · rw [ofFixedStrings, dif_neg hwidth]

/-- A NUL at the end of the text is stored and not read: the string differs from itself and equals
the text before the NUL. -/
theorem stored_string_reads_nul :
    let k : Keyword := ⟨⟨"NAMES", by decide⟩, .char, 1, List.replicate 8 0x20, .inl rfl⟩
    ∃ k', k.setString 0 "A\x00" = .ok k' ∧ k'.getString 0 = .ok "A" ∧
      k'.stringEq 0 "A\x00" = .ok false ∧ k'.stringEq 0 "A  " = .ok true := by
  intro k
  have htakes := (stored_string_reads k 0 "A\x00" "NAMES" [] 1).1 rfl
  have hfits : FitsSlot 8 "A\x00" := ⟨List.all_eq_true.1 (by decide), by decide⟩
  obtain ⟨k', h⟩ := htakes.accepts.2 ⟨rfl, Nat.one_pos, hfits⟩
  have hreads := htakes.reads h
  have hself : (decide ¬EndsInNul "A\x00") = false := by decide +kernel
  have hother : decide (dropFillers "A\x00" = dropBlanks "A  ") = true := by decide +kernel
  exact ⟨k', h, hreads.getString, hself ▸ hreads.self, hother ▸ hreads.stringEq "A  "⟩

end Keyword

end Reservoir
