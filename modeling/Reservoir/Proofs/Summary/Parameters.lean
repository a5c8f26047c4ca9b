import Reservoir.Proofs.Keyword.Contents
import Reservoir.Proofs.Stream.Holding
import Reservoir.Summary.Series

/-!
Values of ministeps as their keywords hold them. What is read of an entry, an element or a value of
a variable or a time, is settled by the keyword that the entry tells of, wherever it is stored.
-/

namespace Reservoir

open Outcome

namespace KeywordFile

variable {file file' : KeywordFile} {stream stream' : Bytes} {e e' : Entry} {k : Keyword}
  {α : Type} [Element α] {catalog : SummaryCatalog}

theorem readElement_of_type_ne (h : e.type ≠ Element.type α) (i : Nat) :
    file.readElement (α := α) stream e i =
      .error (.typeMismatch e.name (Element.type α).codeText e.type.codeText) := by
  rw [readElement, readRange, if_pos h, error_bind]

theorem readElement_of_count_le (h : e.type = Element.type α) {i : Nat} (hi : e.count ≤ i) :
    file.readElement (α := α) stream e i = .error (.outOfRange .element (i + 1) e.count) := by
  rw [readElement, readRange, if_neg (not_not.2 h), if_pos (.inr (Nat.lt_succ_of_le hi)),
    error_bind, Nat.max_eq_right (Nat.le_succ i)]

namespace Shows

theorem name (h : file.Shows stream e k) : e.name = k.name.val := congrArg Header.name h.header

theorem type (h : file.Shows stream e k) : e.type = k.type := congrArg Header.type h.header

theorem count (h : file.Shows stream e k) : e.count = k.count := congrArg Header.count h.header

theorem readElement_eq_get (h : file.Shows stream e k) (hnumeric : (Element.type α).isNumeric)
    {i : Nat} (hi : i < k.count) : file.readElement stream e i = (k.get i : Outcome α) := by
  by_cases htype : k.type = Element.type α
  · rw [h.element htype.symm (htype ▸ hnumeric) hi, Keyword.get_eq_ok h.whole htype hi]
  · rw [readElement_of_type_ne (h.type ▸ htype), Keyword.get_of_type_ne htype, h.name, h.type]

theorem readElement_congr (h : file.Shows stream e k) (h' : file'.Shows stream' e' k)
    (hnumeric : (Element.type α).isNumeric) (i : Nat) :
    file.readElement (α := α) stream e i = file'.readElement stream' e' i := by
  by_cases hi : i < k.count
  · rw [h.readElement_eq_get hnumeric hi, h'.readElement_eq_get hnumeric hi]
  by_cases htype : k.type = Element.type α
  · have hle := Nat.le_of_not_lt hi
    rw [readElement_of_count_le (h.type ▸ htype) (h.count ▸ hle),
      readElement_of_count_le (h'.type ▸ htype) (h'.count ▸ hle), h.count, h'.count]
  · rw [readElement_of_type_ne (h.type ▸ htype), readElement_of_type_ne (h'.type ▸ htype), h.name,
      h.type, h'.name, h'.type]

theorem readParameter_congr (h : file.Shows stream e k) (h' : file'.Shows stream' e' k)
    (position : Nat) :
    file.readParameter stream e position = file'.readParameter stream' e' position := by
  unfold readParameter
  rw [h.type, h'.type, h.readElement_congr (α := Double) h' rfl,
    h.readElement_congr (α := Single) h' rfl]

theorem daysOf_congr (h : file.Shows stream e k) (h' : file'.Shows stream' e' k) :
    catalog.daysOf file stream e = catalog.daysOf file' stream' e' := by
  unfold SummaryCatalog.daysOf
  simp only [h.readParameter_congr h']

end Shows

theorem type_of_readParameter {position : Nat} {x : Double}
    (h : file.readParameter stream e position = .ok x) : e.type = .real ∨ e.type = .double := by
  by_contra htype
  rw [not_or] at htype
  unfold readParameter at h
  split at h
  · next hdouble => exact htype.2 hdouble
  · rw [readElement_of_type_ne htype.1, error_bind] at h
    cases h

theorem type_of_daysOf {days : Double} (h : catalog.daysOf file stream e = .ok days) :
    e.type = .real ∨ e.type = .double := by
  unfold SummaryCatalog.daysOf at h
  split at h
  · exact type_of_readParameter h
  · obtain ⟨x, hx, -⟩ := bind_eq_ok.1 h
    exact type_of_readParameter hx
  · obtain ⟨x, hx, -⟩ := bind_eq_ok.1 h
    exact type_of_readParameter hx
  · cases h

theorem Shows.readParameter_eq_getDouble (h : file.Shows stream e k)
    (htype : e.type = .real ∨ e.type = .double) {position : Nat} (hposition : position < k.count) :
    file.readParameter stream e position = k.getDouble position := by
  have hktype := h.type
  unfold readParameter Keyword.getDouble
  obtain htype | htype := htype
  · rw [htype] at hktype ⊢
    rw [← hktype]
    simp only [h.readElement_eq_get (α := Single) rfl hposition]
  · rw [htype] at hktype ⊢
    rw [← hktype]
    exact h.readElement_eq_get rfl hposition

end KeywordFile

end Reservoir
