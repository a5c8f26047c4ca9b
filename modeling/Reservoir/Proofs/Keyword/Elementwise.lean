import Reservoir.Proofs.Keyword.Contents
import Reservoir.Proofs.Stream.Holding

/-!
Whole keywords and their single elements. Numbers, strings and numbers of either width are read in
the same way: where the type suits, there is one result for each element, and it is what reading
this element alone gives; where it does not, nothing is read at all.
-/

namespace Reservoir

open Outcome

/-- Values that fill the slots of a numeric type and come back as they were put in. -/
class LawfulElement (α : Type) [Element α] : Prop where
  isNumeric : (Element.type α).isNumeric
  decode_encode (x : α) : Element.decode (Element.encode x) = x

instance : LawfulElement Int32 := ⟨rfl, Element.decode_encode_int⟩

instance : LawfulElement Single := ⟨rfl, Element.decode_encode_single⟩

instance : LawfulElement Double := ⟨rfl, Element.decode_encode_double⟩

instance : LawfulElement Bool := ⟨rfl, Element.decode_encode_bool⟩

namespace Keyword

variable {β γ : Type} {k : Keyword} {suits suits' : Prop} {whole : Outcome (List β)}
  {one : Nat → Outcome β}

/-- Reading all elements of a keyword and reading one of them tell the same. -/
structure Elementwise (k : Keyword) (suits : Prop) (whole : Outcome (List β))
    (one : Nat → Outcome β) : Prop where
  within : suits → ∃ values, whole = .ok values ∧ values.length = k.count ∧
    ∀ (i : Nat) (hi : i < values.length), one i = .ok values[i]
  beyond : suits → ∀ i, k.count ≤ i → one i = .error (.outOfRange .element i k.count)
  refused : ¬suits → ∃ expected, whole = .error (k.mismatch expected) ∧
    ∀ i, one i = .error (k.mismatch expected)

namespace Elementwise

theorem congr (h : k.Elementwise suits whole one) (hsuits : suits ↔ suits') :
    k.Elementwise suits' whole one :=
  propext hsuits ▸ h

theorem map (h : k.Elementwise suits whole one) (f : β → γ) :
    k.Elementwise suits (whole >>= fun values => pure (values.map f))
      (fun i => one i >>= fun value => pure (f value)) where
  within hsuits := by
    obtain ⟨values, rfl, hlength, hone⟩ := h.within hsuits
    refine ⟨values.map f, rfl, by rw [List.length_map, hlength], fun i hi => ?_⟩
    rw [hone i (by rwa [List.length_map] at hi), List.getElem_map]
    rfl
  beyond hsuits i hi := by rw [h.beyond hsuits i hi, error_bind]
  refused hsuits := by
    obtain ⟨expected, rfl, hone⟩ := h.refused hsuits
    exact ⟨expected, rfl, fun i => by rw [hone i, error_bind]⟩

end Elementwise

end Keyword

end Reservoir
