import Reservoir.Proofs.Grid.RecordRanges

/-!
The numbers of active cells. A cell is active if its stored activity is positive, or if a grid
stores no activity at all; the active cells are numbered in the order of the cells, and the two
tables of a grid lead from a cell to its number and back.
-/

namespace Reservoir

open Outcome

namespace Grid

section Masks

variable {values : List Int} {first next cell i a : Nat}

theorem le_of_mem_activeFrom (h : cell ∈ activeFrom first values) : first ≤ cell := by
  induction values generalizing first with
  | nil => cases h
  | cons value values ih =>
    unfold activeFrom at h
    split at h
    · rcases List.mem_cons.1 h with rfl | h
      · exact Nat.le_refl _
      · exact Nat.le_of_succ_le (ih h)
    · exact Nat.le_of_succ_le (ih h)

theorem pairwise_activeFrom (values : List Int) (first : Nat) :
    (activeFrom first values).Pairwise (· < ·) := by
  induction values generalizing first with
  | nil => exact .nil
  | cons value values ih =>
    unfold activeFrom
    split
    · exact List.pairwise_cons.2 ⟨fun cell hcell => le_of_mem_activeFrom hcell, ih (first + 1)⟩
    · exact ih (first + 1)

theorem length_activeIndices (next : Nat) (values : List Int) :
    (activeIndices next values).length = values.length := by
  induction values generalizing next with
  | nil => rfl
  | cons value values ih =>
    unfold activeIndices
    split
    · rw [List.length_cons, List.length_cons, ih]
    · rw [List.length_cons, List.length_cons, ih]

theorem le_of_activeIndices (h : (activeIndices next values)[i]? = some (some a)) : next ≤ a := by
  induction values generalizing next i with
  | nil => cases h
  | cons value values ih =>
    unfold activeIndices at h
    split at h
    · cases i with
      | zero => cases h; exact Nat.le_refl _
      | succ i => exact Nat.le_of_succ_le (ih h)
    · cases i with
      | zero => cases h
      | succ i => exact ih h

theorem activeIndices_eq_some_iff : (activeIndices next values)[i]? = some (some (next + a)) ↔
    (activeFrom first values)[a]? = some (first + i) := by
  induction values generalizing next first i a with
  | nil => simp [activeIndices, activeFrom]
  | cons value values ih =>
    have hfront : ∀ a : Nat, (activeFrom (first + 1) values)[a]? ≠ some first := fun a ha =>
      Nat.not_succ_le_self first (le_of_mem_activeFrom (List.mem_of_getElem? ha))
    have hnext : ∀ i : Nat, (activeIndices (next + 1) values)[i]? ≠ some (some next) :=
      fun i hi => Nat.not_succ_le_self next (le_of_activeIndices hi)
    unfold activeIndices activeFrom
    split
    · cases i with
      | zero =>
        cases a with
        | zero => simp
        | succ a => simpa using hfront a
      | succ i =>
        cases a with
        | zero => simpa using hnext i
        | succ a =>
          have hrest := @ih (first + 1) (next + 1) i a
          rwa [Nat.add_right_comm next, Nat.add_right_comm first] at hrest
    · cases i with
      | zero => simpa using hfront a
      | succ i =>
        have hrest := @ih (first + 1) next i a
        rwa [Nat.add_right_comm first] at hrest

theorem activeIndices_eq_none_iff :
    (activeIndices next values)[i]? = some none ↔ ∃ v, values[i]? = some v ∧ v ≤ 0 := by
  refine ⟨fun h => ?_, fun ⟨v, hv, hle⟩ => activeIndices_of_nonpos hv hle next⟩
  induction values generalizing next i with
  | nil => cases h
  | cons value values ih =>
    unfold activeIndices at h
    split at h
    · cases i with
      | zero => cases h
      | succ i => exact ih h
    · next hvalue =>
      cases i with
      | zero => exact ⟨value, rfl, Int.not_lt.1 hvalue⟩
      | succ i => exact ih h

theorem mem_activeFrom : cell ∈ activeFrom 0 values ↔ ∃ v, values[cell]? = some v ∧ 0 < v := by
  have hlength := length_activeIndices 0 values
  rw [List.mem_iff_getElem?]
  constructor
  · rintro ⟨a, ha⟩
    have hindex : (activeIndices 0 values)[cell]? = some (some (0 + a)) :=
      activeIndices_eq_some_iff.2 (ha.trans (by rw [Nat.zero_add]))
    have hlt : cell < values.length := hlength ▸ (List.getElem?_eq_some_iff.1 hindex).1
    refine ⟨values[cell], List.getElem?_eq_getElem hlt, Int.lt_of_not_ge fun hle => ?_⟩
    rw [activeIndices_of_nonpos (List.getElem?_eq_getElem hlt) hle] at hindex
    cases hindex
  · rintro ⟨v, hv, hpos⟩
    have hlt : cell < (activeIndices 0 values).length :=
      hlength.symm ▸ (List.getElem?_eq_some_iff.1 hv).1
    have hindex := List.getElem?_eq_getElem hlt
    cases hfound : (activeIndices 0 values)[cell] with
    | none =>
      obtain ⟨v', hv', hle⟩ := activeIndices_eq_none_iff.1 (hfound ▸ hindex)
      obtain rfl := Option.some.inj (hv.symm.trans hv')
      exact absurd hpos (Int.not_lt.2 hle)
    | some a =>
      rw [hfound, ← Nat.zero_add a] at hindex
      exact ⟨a, (activeIndices_eq_some_iff.1 hindex).trans (by rw [Nat.zero_add])⟩

end Masks

/-- The tables of active cells are the ones of the activity values, of which there is one for each
cell. -/
structure Indexed (grid : Grid) : Prop where
  size_activity : grid.activity.size = grid.size
  activeIndex : grid.activeIndex = (activeIndices 0 grid.activity.toList).toArray
  activeCells : grid.activeCells = (activeFrom 0 grid.activity.toList).toArray

theorem indexed_ofCells (name : String) (number : Int) {dims : Dims} (cells : List Cell)
    {activity : Option (List Int)}
    (h : ∀ values, activity = some values → values.length = dims.size) :
    (ofCells name number dims cells activity).Indexed where
  size_activity := by
    cases activity with
    | none => exact List.length_replicate
    | some values => exact h values rfl
  activeIndex := rfl
  activeCells := rfl

/-- The active cells of a grid are numbered from 0 on in the order of the cells, and the number of
a cell and the cell of a number are each other's inverse. Other cells have no number, and there are
no numbers beyond. -/
structure Numbers (grid : Grid) (active : Nat → Prop) : Prop where
  increasing : grid.activeCells.toList.Pairwise (· < ·)
  mem_activeCells (g : Nat) : g ∈ grid.activeCells ↔ g < grid.size ∧ active g
  activeIndexOf_cellOfActive (a : Nat) (ha : a < grid.activeSize) :
    ∃ g, grid.cellOfActive a = .ok g ∧ grid.activeIndexOf g = .ok (some a)
  cellOfActive_activeIndexOf (g a : Nat) (h : grid.activeIndexOf g = .ok (some a)) :
    grid.cellOfActive a = .ok g
  activeIndexOf_eq_none (g : Nat) : grid.activeIndexOf g = .ok none ↔ g < grid.size ∧ ¬active g
  activeIndexOf_outside (g : Nat) (hg : grid.size ≤ g) :
    grid.activeIndexOf g = .error (.outOfRange .globalCell g grid.size)
  cellOfActive_outside (a : Nat) (ha : grid.activeSize ≤ a) :
    grid.cellOfActive a = .error (.outOfRange .activeCell a grid.activeSize)

section Lookup

variable {grid : Grid}

theorem lookup_eq_ok_of_size {α : Type} {values : Array α} (hsize : values.size = grid.size)
    {g : Nat} {x : α} : grid.lookup values g = .ok x ↔ values[g]? = some x := by
  rw [lookup_eq_ok, and_iff_right_iff_imp]
  exact fun hfound => hsize ▸ (Array.getElem?_eq_some_iff.1 hfound).1

theorem lookup_outside {α : Type} (values : Array α) {g : Nat} (hg : grid.size ≤ g) :
    grid.lookup values g = .error (.outOfRange .globalCell g grid.size) := by
  have hcheck : grid.dims.check g = .error (.outOfRange .globalCell g grid.size) :=
    if_neg (Nat.not_lt_of_le hg)
  rw [lookup, hcheck, error_bind]

theorem cellOfActive_eq_ok {a g : Nat} :
    grid.cellOfActive a = .ok g ↔ grid.activeCells[a]? = some g := by
  unfold cellOfActive
  split
  · next found hfound => rw [hfound, Except.ok.injEq, Option.some.injEq]
  · next hnone => simp [hnone]

end Lookup

theorem Indexed.numbers {grid : Grid} (h : grid.Indexed) {active : Nat → Prop}
    (hactive : ∀ g v, grid.activity[g]? = some v → (active g ↔ 0 < v)) : grid.Numbers active := by
  have hsize : grid.activeIndex.size = grid.size := by
    rw [h.activeIndex, List.size_toArray, length_activeIndices, Array.length_toList,
      h.size_activity]
  have hnumber : ∀ g a, grid.activeIndexOf g = .ok (some a) ↔ grid.cellOfActive a = .ok g := by
    intro g a
    have hplaces := @activeIndices_eq_some_iff grid.activity.toList 0 0 g a
    rw [Nat.zero_add, Nat.zero_add] at hplaces
    rw [activeIndexOf, lookup_eq_ok_of_size hsize, cellOfActive_eq_ok, h.activeIndex, h.activeCells,
      List.getElem?_toArray, List.getElem?_toArray, hplaces]
  have hvalue : ∀ {g : Nat}, g < grid.size → ∃ v, grid.activity[g]? = some v :=
    fun hg => ⟨_, Array.getElem?_eq_getElem (h.size_activity.symm ▸ hg)⟩
  have hlt : ∀ {g : Nat} {v : Int}, grid.activity[g]? = some v → g < grid.size :=
    fun hv => h.size_activity ▸ (Array.getElem?_eq_some_iff.1 hv).1
  constructor
  case increasing =>
    rw [h.activeCells]
    exact pairwise_activeFrom ..
  case mem_activeCells =>
    intro g
    rw [h.activeCells, List.mem_toArray, mem_activeFrom]
    simp only [Array.getElem?_toList]
    constructor
    · rintro ⟨v, hv, hpos⟩
      exact ⟨hlt hv, (hactive g v hv).2 hpos⟩
    · rintro ⟨hg, hon⟩
      obtain ⟨v, hv⟩ := hvalue hg
      exact ⟨v, hv, (hactive g v hv).1 hon⟩
  case activeIndexOf_cellOfActive =>
    intro a ha
    have hfound := cellOfActive_eq_ok.2 (Array.getElem?_eq_getElem ha)
    exact ⟨_, hfound, (hnumber _ a).2 hfound⟩
  case cellOfActive_activeIndexOf => exact fun g a => (hnumber g a).1
  case activeIndexOf_eq_none =>
    intro g
    rw [activeIndexOf, lookup_eq_ok_of_size hsize, h.activeIndex, List.getElem?_toArray,
      activeIndices_eq_none_iff]
    simp only [Array.getElem?_toList]
    constructor
    · rintro ⟨v, hv, hle⟩
      exact ⟨hlt hv, fun hon => absurd ((hactive g v hv).1 hon) (Int.not_lt.2 hle)⟩
    · rintro ⟨hg, hoff⟩
      obtain ⟨v, hv⟩ := hvalue hg
      exact ⟨v, hv, Int.not_lt.1 fun hpos => hoff ((hactive g v hv).2 hpos)⟩
  case activeIndexOf_outside => exact fun g hg => lookup_outside _ hg
  case cellOfActive_outside =>
    intro a ha
    unfold cellOfActive
    rw [Array.getElem?_eq_none ha]

end Grid

end Reservoir
