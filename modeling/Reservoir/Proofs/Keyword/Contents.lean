import Reservoir.Proofs.Stream.PartialReads
import Reservoir.Proofs.Text.Ascii

/-!
What is put into a keyword is what it holds. The slots of a keyword made of values are these
values one by one, so each type of elements gives them back.
-/

namespace Reservoir

open Outcome

theorem Bytes.slots_flatten {size : Nat} {pieces : List Bytes}
    (h : ∀ piece ∈ pieces, piece.length = size) :
    slots size pieces.length pieces.flatten = pieces := by
  induction pieces with
  | nil => rfl
  | cons piece pieces ih =>
    simp only [List.mem_cons, forall_eq_or_imp] at h
    obtain ⟨hpiece, hback⟩ := h
    rw [List.length_cons, List.flatten_cons, slots, ← hpiece, List.take_left, List.drop_left,
      hpiece, ih hback]

namespace Keyword

variable {α : Type} [Element α]

theorem checkType_eq_ok {k : Keyword} {type : ElementType} (h : k.checkType type = .ok ()) :
    k.type = type := by
  by_contra hother
  rw [checkType, if_neg hother] at h
  cases h

theorem get_eq_ok {k : Keyword} (hk : k.Whole) (htype : k.type = Element.type α) {i : Nat}
    (hi : i < k.count) : k.get i = .ok (Element.decode (k.slot i) : α) := by
  simp only [get, checkType, if_pos htype, checkIndex, if_pos hi, readSlot_eq hk hi, ok_bind,
    pure_eq]

theorem get_of_type_ne {k : Keyword} (htype : k.type ≠ Element.type α) (i : Nat) :
    (k.get i : Outcome α) =
      .error (.typeMismatch k.name.val (Element.type α).codeText k.type.codeText) := by
  simp only [get, checkType, if_neg htype, error_bind, mismatch]

theorem length_values {k : Keyword} {values : List α} (hk : k.Whole)
    (hnumeric : (Element.type α).isNumeric) (h : k.values = .ok values) :
    values.length = k.count := by
  obtain ⟨done, hcheck, hslots⟩ := bind_eq_ok.1 h
  have hsize := ElementType.size_ne_zero_of_isNumeric hnumeric
  rw [← checkType_eq_ok hcheck] at hsize
  cases hslots
  rw [List.length_map, length_slots hk hsize]

theorem length_values_le {k : Keyword} {values : List α} (h : k.values = .ok values) :
    values.length ≤ k.count := by
  obtain ⟨done, -, hslots⟩ := bind_eq_ok.1 h
  cases hslots
  rw [List.length_map]
  exact k.length_slots_le

theorem length_doubles_le {k : Keyword} {values : List Double} (h : k.doubles = .ok values) :
    values.length ≤ k.count := by
  unfold doubles at h
  split at h
  · obtain ⟨words, hwords, h⟩ := bind_eq_ok.1 h
    cases h
    rw [List.length_map]
    exact length_values_le hwords
  · exact length_values_le h
  · cases h

theorem type_of_integers {k : Keyword} {values : List Int} (h : k.integers = .ok values) :
    k.type = .int := by
  obtain ⟨words, hwords, -⟩ := bind_eq_ok.1 h
  obtain ⟨done, hcheck, -⟩ := bind_eq_ok.1 hwords
  exact checkType_eq_ok hcheck

theorem lt_of_mem_integers {k : Keyword} {values : List Int} (h : k.integers = .ok values) {n : Int}
    (hn : n ∈ values) : n < 2 ^ 31 := by
  obtain ⟨words, -, hvalues⟩ := bind_eq_ok.1 h
  cases hvalues
  obtain ⟨word, -, rfl⟩ := List.mem_map.1 hn
  exact word.toInt_lt

theorem length_integers {k : Keyword} {values : List Int} (hk : k.Whole)
    (h : k.integers = .ok values) : values.length = k.count := by
  obtain ⟨words, hwords, hvalues⟩ := bind_eq_ok.1 h
  cases hvalues
  rw [List.length_map, length_values hk rfl hwords]

theorem length_doubles {k : Keyword} {values : List Double} (hk : k.Whole)
    (h : k.doubles = .ok values) : values.length = k.count := by
  unfold doubles at h
  split at h
  · obtain ⟨words, hwords, h⟩ := bind_eq_ok.1 h
    cases h
    rw [List.length_map, length_values hk rfl hwords]
  · exact length_values hk rfl h
  · cases h

def holding (name : Name) (values : List α) : Keyword :=
  ⟨name, Element.type α, values.length, (values.map Element.encode).flatten,
    fills_encoded values⟩

theorem whole_holding (name : Name) (values : List α) : (holding name values).Whole :=
  length_encoded values

theorem values_holding (hnumeric : (Element.type α).isNumeric)
    (hdecode : ∀ x : α, Element.decode (Element.encode x) = x) (name : Name) (values : List α) :
    (holding name values).values = .ok values := by
  have hsize : (holding name values).type.size ≠ 0 :=
    ElementType.size_ne_zero_of_isNumeric hnumeric
  have hslots := Bytes.slots_flatten fun piece => @length_of_mem_encoded α _ values piece
  rw [List.length_map] at hslots
  rw [values_eq_ok rfl, slots_eq (whole_holding name values) hsize]
  simp only [holding, hslots, List.map_map]
  exact congrArg Except.ok (List.map_id'' hdecode values)

theorem integers_holding (name : Name) (values : List Int32) :
    (holding name values).integers = .ok (values.map Int32.toInt) := by
  rw [integers, values_holding rfl Element.decode_encode_int, ok_bind, pure_eq]

theorem doubles_holding (name : Name) (values : List Double) :
    (holding name values).doubles = .ok values :=
  values_holding rfl Element.decode_encode_double name values

end Keyword

end Reservoir
