import Reservoir.Proofs.Stream.Holding

/-!
Files side by side. Where the entries of two files have the same names one by one, the parts that
their keywords divide them into lie side by side too; and what is loaded of the first file is loaded
of the second, but for the keywords of some names.
-/

namespace Reservoir

open Outcome

section Related

variable {α β : Type} {R : α → β → Prop} {xs : List α} {ys : List β}

theorem rel_takeWhile {p : α → Bool} {q : β → Bool} (hpq : ∀ x y, R x y → p x = q y)
    (h : List.Forall₂ R xs ys) : List.Forall₂ R (xs.takeWhile p) (ys.takeWhile q) := by
  induction h with
  | nil => exact .nil
  | cons head tail ih =>
    rw [List.takeWhile_cons, List.takeWhile_cons, hpq _ _ head]
    split
    · exact .cons head ih
    · exact .nil

end Related

namespace KeywordFile

/-- An entry of each file, of the same name. Unless the keywords of this name have changed, what the
first file gives for its entry the second gives too. -/
structure Beside (changed : List String) (file : KeywordFile) (stream : Bytes) (file' : KeywordFile)
    (stream' : Bytes) (e e' : Entry) : Prop where
  name_eq : e.name = e'.name
  count_eq (hname : e.name ∉ changed) : e.count = e'.count
  load (hname : e.name ∉ changed) : Le (file.load stream e) (file'.load stream' e')
  readElement (hname : e.name ∉ changed) (i : Nat) :
    Le (file.readElement stream e i : Outcome Int32) (file'.readElement stream' e' i)

def Aligned (changed : List String) (file : KeywordFile) (stream : Bytes) (file' : KeywordFile)
    (stream' : Bytes) (part part' : Catalog) : Prop :=
  List.Forall₂ (Beside changed file stream file' stream') part.entries part'.entries

namespace Aligned

variable {changed : List String} {file file' : KeywordFile} {stream stream' : Bytes}
  {part part' : Catalog}

theorem named (h : Aligned changed file stream file' stream' part part') (name : String) :
    List.Forall₂ (Beside changed file stream file' stream') (part.named name)
      (part'.named name) := by
  refine List.rel_filter (fun e e' he => ?_) h
  dsimp only
  rw [he.name_eq]

theorem count_eq (h : Aligned changed file stream file' stream' part part') (name : String) :
    part.count name = part'.count name :=
  (h.named name).length_eq

theorem get? (h : Aligned changed file stream file' stream' part part') {name : String}
    (hname : name ∉ changed) (i : Nat) :
    (part.get? name i = none ∧ part'.get? name i = none) ∨
      ∃ e e', part.get? name i = some e ∧ part'.get? name i = some e' ∧ e.name ∉ changed ∧
        Beside changed file stream file' stream' e e' := by
  have hget : Option.Rel (Beside changed file stream file' stream') (part.get? name i)
      (part'.get? name i) := rel_getElem? (h.named name) i
  cases hfound : part.get? name i with
  | none =>
    rw [hfound] at hget
    generalize part'.get? name i = found' at hget ⊢
    cases hget
    exact .inl ⟨rfl, rfl⟩
  | some e =>
    have hmem : e ∈ part.named name := List.mem_of_getElem? hfound
    have hsame : e.name = name := by simpa using (List.mem_filter.1 hmem).2
    rw [hfound] at hget
    generalize part'.get? name i = found' at hget ⊢
    cases hget with
    | some he => exact .inr ⟨e, _, rfl, rfl, hsame ▸ hname, he⟩

theorem loadFrom (h : Aligned changed file stream file' stream' part part') {name : String}
    (hname : name ∉ changed) (i : Nat) :
    Le (file.loadFrom stream part name i) (file'.loadFrom stream' part' name i) := by
  unfold KeywordFile.loadFrom
  rcases h.get? hname i with ⟨hnone, hnone'⟩ | ⟨e, e', he, he', hkept, hbeside⟩
  · rw [hnone, hnone']
    exact .refl _
  · rw [he, he']
    exact hbeside.load hkept

theorem loadOptional (h : Aligned changed file stream file' stream' part part') {name : String}
    (hname : name ∉ changed) :
    Le (file.loadOptional stream part name) (file'.loadOptional stream' part' name) := by
  unfold KeywordFile.loadOptional
  rcases h.get? hname 0 with ⟨hnone, hnone'⟩ | ⟨e, e', he, he', hkept, hbeside⟩
  · rw [hnone, hnone']
    exact .refl _
  · rw [he, he']
    exact (hbeside.load hkept).map some

theorem head (h : Aligned changed file stream file' stream' part part') (name : String) :
    Aligned changed file stream file' stream' (part.head name) (part'.head name) :=
  rel_takeWhile (fun e e' he => by rw [he.name_eq]) h

theorem suffix? {name : String} {es es' : List Entry}
    (h : List.Forall₂ (Beside changed file stream file' stream') es es') (i : Nat) :
    Option.Rel (List.Forall₂ (Beside changed file stream file' stream')) (Catalog.suffix? name i es)
      (Catalog.suffix? name i es') := by
  induction h generalizing i with
  | nil => cases i <;> exact .none
  | @cons e e' es es' head tail ih =>
    by_cases hname : e.name = name
    · have hname' : e'.name = name := head.name_eq ▸ hname
      cases i with
      | zero =>
        rw [Catalog.suffix?_cons_zero hname, Catalog.suffix?_cons_zero hname']
        exact .some (.cons head tail)
      | succ i =>
        rw [Catalog.suffix?_cons_succ hname, Catalog.suffix?_cons_succ hname']
        exact ih i
    · have hname' : e'.name ≠ name := head.name_eq ▸ hname
      rw [Catalog.suffix?_cons_of_ne hname, Catalog.suffix?_cons_of_ne hname']
      exact ih i

theorem blocks (h : Aligned changed file stream file' stream' part part') (name : String) :
    List.Forall₂ (Aligned changed file stream file' stream') (part.blocks name)
      (part'.blocks name) := by
  have hblock : ∀ i, Option.Rel (Aligned changed file stream file' stream') (part.block? name i)
      (part'.block? name i) := by
    intro i
    have hsuffix : Option.Rel _ (Catalog.suffix? name i _) (Catalog.suffix? name i _) := suffix? h i
    unfold Catalog.block?
    generalize Catalog.suffix? name i part.entries = found at hsuffix ⊢
    generalize Catalog.suffix? name i part'.entries = found' at hsuffix ⊢
    cases hsuffix with
    | none => exact .none
    | some hes =>
      cases hes with
      | nil => exact .none
      | cons hentry tail =>
        exact .some (.cons hentry (rel_takeWhile (fun e e' he => by rw [he.name_eq]) tail))
  rw [Catalog.blocks, Catalog.blocks, h.count_eq]
  refine List.rel_filterMap (R := Eq) ?_ (List.forall₂_same.2 fun _ _ => rfl)
  rintro i _ rfl
  exact hblock i

end Aligned

end KeywordFile

end Reservoir
