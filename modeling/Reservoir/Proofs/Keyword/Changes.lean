import Reservoir.Proofs.Keyword.Elementwise
import Reservoir.Proofs.Stream.Decoding

/-!
Keywords and the calls that change them. However a keyword is obtained, it is as long as its header
says and has a checked name, and no sequence of calls changes this. A call that goes through leaves
every byte outside of its slot as it was; a call that is refused leaves the whole keyword.
-/

namespace Reservoir

open Outcome

namespace Keyword

/-- The ways to obtain a keyword: the calls that make one, and a stream. -/
inductive Source : Type 1 where
  | blank (name : String) (type : ElementType) (count : Nat)
  | payload (name : String) (type : ElementType) (count : Nat) (bytes : Bytes)
  | values (α : Type) [Element α] (name : String) (values : List α)
  | strings (name : String) (values : List String)
  | fixedStrings (name : String) (width : Nat) (values : List String)
  | stream (encoding : Encoding) (place : Cursor)

namespace Source

/-- What a source tells of its keyword before the elements. -/
def Declares : Source → Header → Prop
  | blank name type count, header => header = ⟨name, type, count⟩
  | payload name type count _, header => header = ⟨name, type, count⟩
  | @values α _ name xs, header => header = ⟨name, Element.type α, xs.length⟩
  | strings name xs, header => header = ⟨name, .char, xs.length⟩
  | fixedStrings name width xs, header =>
    ∃ hwidth, header = ⟨name, .fixed ⟨width, hwidth⟩, xs.length⟩
  | stream encoding place, header => ∃ data, encoding.readHeader place = .ok (some (header, data))

end Source

structure Answers (k : Keyword) (header : Header) : Prop where
  name : Name.check header.name = .ok k.name
  type : k.type = header.type
  count : k.count = header.count

theorem length_stringSlots {width : Nat} {values : List String}
    {slots : { bs : List Bytes // ∀ b ∈ bs, b.length = width }}
    (h : stringSlots width values = .ok slots) : slots.val.length = values.length := by
  induction values generalizing slots with
  | nil =>
    cases h
    rfl
  | cons s values ih =>
    unfold stringSlots at h
    split at h
    · cases h
    · obtain ⟨back, hback, h⟩ := bind_eq_ok.1 h
      cases h
      rw [List.length_cons, List.length_cons, ih hback]

theorem answers_of_ofStringSlots {name : String} {type : ElementType} {values : List String}
    {k : Keyword} (h : ofStringSlots name type values = .ok k) :
    k.Answers ⟨name, type, values.length⟩ := by
  obtain ⟨checked, hname, h⟩ := bind_eq_ok.1 h
  obtain ⟨slots, hslots, h⟩ := bind_eq_ok.1 h
  cases h
  exact ⟨hname, rfl, length_stringSlots hslots⟩

def Source.Counted : Source → Prop
  | blank _ type count => count * type.size < 2 ^ 64
  | payload _ type count _ => count * type.size < 2 ^ 64
  | _ => True

theorem whole_of_ofStringSlots {name : String} {type : ElementType} {values : List String}
    {k : Keyword} (h : ofStringSlots name type values = .ok k) : k.Whole := by
  obtain ⟨checked, -, h⟩ := bind_eq_ok.1 h
  obtain ⟨slots, -, h⟩ := bind_eq_ok.1 h
  cases h
  exact Bytes.length_flatten_of_forall slots.property

/-- The calls that change a keyword. -/
inductive Change : Type 1 where
  | set (α : Type) [Element α] [LawfulElement α] (index : Nat) (value : α)
  | setString (index : Nat) (text : String)
  | rename (name : String)

def apply (k : Keyword) : Change → Outcome Keyword
  | @Change.set _ _ _ index value => k.set index value
  | .setString index text => k.setString index text
  | .rename name => k.rename name

/-- What the caller is told, and the keyword afterwards. -/
def step (k : Keyword) (change : Change) : Outcome Unit × Keyword :=
  match k.apply change with
  | .ok k' => (.ok (), k')
  | .error fault => (.error fault, k)

def after (k : Keyword) (changes : List Change) : Keyword :=
  changes.foldl (fun k change => (k.step change).2) k

/-- What a call needs to go through. -/
def Fits (k : Keyword) : Change → Prop
  | @Change.set α _ _ index _ => k.type = Element.type α ∧ index < k.count
  | .setString index text =>
    k.type.isString ∧ index < k.count ∧
      (∀ c ∈ text.toList, Text.isAscii c) ∧ text.toList.length ≤ k.type.size
  | .rename name => ∃ checked, Name.check name = .ok checked

def InSlot (size index place : Nat) : Prop := index * size ≤ place ∧ place < (index + 1) * size

/-- All but the bytes of one element is the same. -/
structure AgreesOutside (k k' : Keyword) (index : Nat) : Prop where
  name : k'.name = k.name
  type : k'.type = k.type
  count : k'.count = k.count
  byte (place : Nat) : ¬InSlot k.type.size index place → k'.payload[place]? = k.payload[place]?

def Done (k k' : Keyword) : Change → Prop
  | @Change.set _ _ _ index value => k'.get index = .ok value ∧ k.AgreesOutside k' index
  | .setString index text =>
    k'.getString index = .ok (String.ofList (Text.dropTrailing Text.isFiller text.toList)) ∧
      k.AgreesOutside k' index
  | .rename name =>
    Name.check name = .ok k'.name ∧ k'.type = k.type ∧ k'.count = k.count ∧ k'.payload = k.payload

section Replacing

variable {k : Keyword} {index : Nat}

theorem slot_within (hk : k.Whole) (hi : index < k.count) :
    index * k.type.size + k.type.size ≤ k.payload.length := by
  rw [hk, ← Nat.succ_mul]
  exact Nat.mul_le_mul_right _ hi

theorem exists_replaceSlot (hk : k.Whole) (hi : index < k.count) {bytes : Bytes}
    (hb : bytes.length = k.type.size) : ∃ k', k.replaceSlot index bytes hb = .ok k' ∧
      k'.slot index = bytes ∧ k'.Whole ∧ k.AgreesOutside k' index := by
  have hroom := slot_within hk hi
  have hstart : k.slotStart index = .ok ⟨index * k.type.size, hroom⟩ := dif_pos hroom
  have hfront : (k.payload.take (index * k.type.size)).length = index * k.type.size := by
    rw [List.length_take]
    omega
  have hreplace : ∃ k', k.replaceSlot index bytes hb = .ok k' ∧ k'.name = k.name ∧
      k'.type = k.type ∧ k'.count = k.count ∧ k'.payload = k.payload.take (index * k.type.size)
        ++ (bytes ++ k.payload.drop (index * k.type.size + k.type.size)) := by
    rw [replaceSlot, hstart, ok_bind, pure_eq]
    exact ⟨_, rfl, rfl, rfl, rfl, List.append_assoc ..⟩
  obtain ⟨k', hk', hname, htype, hcount, hpayload⟩ := hreplace
  refine ⟨k', hk', ?_, ?_, hname, htype, hcount, fun place hplace => ?_⟩
  · rw [slot, hpayload, htype, List.drop_left' hfront, List.take_left' hb]
  · rw [Whole, hpayload, htype, hcount, ← hk]
    simp only [List.length_append, List.length_take, List.length_drop]
    omega
  · rw [InSlot, Nat.succ_mul, not_and_or, Nat.not_le, Nat.not_lt] at hplace
    rw [hpayload]
    rcases hplace with hbefore | hbehind
    · rw [List.getElem?_append_left (by omega), List.getElem?_take, if_pos hbefore]
    · rw [List.getElem?_append_right (by omega), List.getElem?_append_right (by omega),
        List.getElem?_drop]
      congr 1
      omega

end Replacing

theorem checkIndex_eq {k : Keyword} {index : Nat} (hi : index < k.count) :
    k.checkIndex index = .ok () :=
  if_pos hi

theorem lt_of_checkIndex {k : Keyword} {index : Nat} (h : k.checkIndex index = .ok ()) :
    index < k.count := by
  by_contra hbeyond
  rw [checkIndex, if_neg hbeyond] at h
  cases h

theorem checkString_eq {k : Keyword} (hstring : k.type.isString) : k.checkString = .ok () :=
  if_pos hstring

theorem isString_of_checkString {k : Keyword} (h : k.checkString = .ok ()) : k.type.isString := by
  by_contra hother
  rw [checkString, if_neg hother] at h
  cases h

theorem exists_apply {k : Keyword} (hk : k.Whole) {change : Change} (h : k.Fits change) :
    ∃ k', k.apply change = .ok k' ∧ k'.Whole ∧ k.Done k' change := by
  cases change with
  | set α index value =>
    obtain ⟨htype, hi⟩ := h
    have hb : (Element.encode value).length = k.type.size := by rw [Element.length_encode, htype]
    obtain ⟨k', hreplace, hslot, hwhole, hagrees⟩ := exists_replaceSlot hk hi hb
    refine ⟨k', ?_, hwhole, ?_, hagrees⟩
    · rw [apply, set, dif_pos htype, checkIndex_eq hi, ok_bind, hreplace]
    · rw [get_eq_ok hwhole (hagrees.type.trans htype) (hagrees.count ▸ hi), hslot,
        LawfulElement.decode_encode]
  | setString index text =>
    obtain ⟨hstring, hi, hascii, hwidth⟩ := h
    have hpad := Text.padAscii_eq hascii hwidth
    obtain ⟨k', hreplace, hslot, hwhole, hagrees⟩ :=
      exists_replaceSlot hk hi (Text.length_padAscii hpad)
    refine ⟨k', ?_, hwhole, ?_, hagrees⟩
    · rw [apply, setString, checkString_eq hstring, checkIndex_eq hi, ok_bind, ok_bind]
      split
      · next slot hsame =>
        cases hsame.symm.trans hpad
        exact hreplace
      · next hfault => cases hfault.symm.trans hpad
    · rw [getString, checkString_eq (hagrees.type ▸ hstring), checkIndex_eq (hagrees.count ▸ hi),
        ok_bind, ok_bind, readSlot_eq hwhole (hagrees.count ▸ hi), hslot, ok_bind, pure_eq,
        Text.trimSlot_padRight hascii]
  | rename name =>
    obtain ⟨checked, hname⟩ := h
    exact ⟨{ k with name := checked }, by rw [apply, rename, hname, ok_bind, pure_eq], hk, hname,
      rfl, rfl, rfl⟩

theorem fits_of_apply {k k' : Keyword} {change : Change} (h : k.apply change = .ok k') :
    k.Fits change := by
  cases change with
  | set α index value =>
    simp only [apply, set] at h
    split at h
    · next htype =>
      obtain ⟨⟨⟩, hindex, -⟩ := bind_eq_ok.1 h
      exact ⟨htype, lt_of_checkIndex hindex⟩
    · cases h
  | setString index text =>
    obtain ⟨⟨⟩, hstring, h⟩ := bind_eq_ok.1 h
    obtain ⟨⟨⟩, hindex, h⟩ := bind_eq_ok.1 h
    split at h
    · next slot hslot =>
      obtain ⟨hascii, hwidth, -⟩ := Text.padAscii_eq_ok.1 hslot
      exact ⟨isString_of_checkString hstring, lt_of_checkIndex hindex, hascii, hwidth⟩
    · cases h
  | rename name =>
    obtain ⟨checked, hname, -⟩ := bind_eq_ok.1 h
    exact ⟨checked, hname⟩

def Change.Touches (size place : Nat) : Change → Prop
  | @set _ _ _ index _ => InSlot size index place
  | setString index _ => InSlot size index place
  | rename _ => False

/-- What calls leave of a keyword: its type, its count and each byte that none of them can write;
a new name is one that a call gave and that was checked. -/
structure Keeps (changes : List Change) (k k' : Keyword) : Prop where
  type : k'.type = k.type
  count : k'.count = k.count
  name : k'.name = k.name ∨ ∃ name, .rename name ∈ changes ∧ Name.check name = .ok k'.name
  byte (place : Nat) : (∀ change ∈ changes, ¬change.Touches k.type.size place) →
    k'.payload[place]? = k.payload[place]?

theorem Keeps.refl (k : Keyword) : Keeps [] k k := ⟨rfl, rfl, .inl rfl, fun _ _ => rfl⟩

theorem Keeps.trans {front back : List Change} {k k' k'' : Keyword} (h : Keeps front k k')
    (h' : Keeps back k' k'') : Keeps (front ++ back) k k'' where
  type := h'.type.trans h.type
  count := h'.count.trans h.count
  name := by
    rcases h'.name with hsame | ⟨name, hmem, hcheck⟩
    · rw [hsame]
      rcases h.name with hsame | ⟨name, hmem, hcheck⟩
      · exact .inl hsame
      · exact .inr ⟨name, List.mem_append_left _ hmem, hcheck⟩
    · exact .inr ⟨name, List.mem_append_right _ hmem, hcheck⟩
  byte place huntouched := by
    rw [h'.byte place fun change hmem => h.type ▸ huntouched change (List.mem_append_right _ hmem),
      h.byte place fun change hmem => huntouched change (List.mem_append_left _ hmem)]

/-- A blank keyword has the bytes of its elements if and only if a word counts these. -/
theorem whole_blank_iff {name : String} {type : ElementType} {count : Nat} {k : Keyword}
    (h : blank name type count = .ok k) : k.Whole ↔ count * type.size < 2 ^ 64 := by
  obtain ⟨checked, -, h⟩ := bind_eq_ok.1 h
  cases h
  rw [Whole, List.length_replicate]
  exact wrap_eq_self_iff

end Keyword

end Reservoir
