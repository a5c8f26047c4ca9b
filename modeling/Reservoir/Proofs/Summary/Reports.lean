import Mathlib.Data.List.Sort
import Reservoir.Proofs.Outcome
import Reservoir.Summary.Series

/-!
Report steps of a series. They never fall, so the ministeps of a report step stand together, from
the first one that is found for it to the last one.
-/

namespace Reservoir

theorem exists_places_of_sorted {xs : List Nat} (h : xs.SortedLE) {x : Nat} (hx : x ∈ xs) :
    ∃ first last, xs.findIdx? (· == x) = some first ∧ lastPlace? (· == x) xs = some last ∧
      ∀ place, xs[place]? = some x ↔ first ≤ place ∧ place ≤ last := by
  have hsome : (xs.findIdx? (· == x)).isSome := by simpa using hx
  have hsome' : lastPlace? (· == x) xs ≠ none :=
    fun hnone => by simpa using lastPlace?_eq_none.1 hnone x hx
  obtain ⟨first, hfirst⟩ := Option.isSome_iff_exists.1 hsome
  obtain ⟨last, hlast⟩ := Option.ne_none_iff_exists'.1 hsome'
  refine ⟨first, last, hfirst, hlast, fun place => ?_⟩
  obtain ⟨hlt, hat, hbefore⟩ := List.findIdx?_eq_some_iff_getElem.1 hfirst
  obtain ⟨⟨y, hy, heq⟩, hafter⟩ := lastPlace?_eq_some.1 hlast
  obtain ⟨hlt', rfl⟩ := List.getElem?_eq_some_iff.1 hy
  rw [beq_iff_eq] at hat heq
  constructor
  · intro hplace
    obtain ⟨hinside, hvalue⟩ := List.getElem?_eq_some_iff.1 hplace
    constructor
    · by_contra hearly
      exact hbefore place (Nat.lt_of_not_le hearly) (beq_iff_eq.2 hvalue)
    · by_contra hlate
      have hmem : x ∈ xs.drop (last + 1) := by
        rw [List.mem_drop_iff_getElem]
        exact ⟨place - (last + 1), by omega, by simp only [← hvalue]; congr 1; omega⟩
      simpa using hafter x hmem
  · rintro ⟨hge, hle⟩
    have hinside : place < xs.length := Nat.lt_of_le_of_lt hle hlt'
    have hlower : x ≤ xs[place] := hat ▸ h.getElem_le_getElem_of_le hge
    have hupper : xs[place] ≤ x := heq ▸ h.getElem_le_getElem_of_le hle
    rw [List.getElem?_eq_getElem hinside, Nat.le_antisymm hupper hlower]

namespace Series

variable {s : Series} {step : Nat}

theorem exists_report_places (h : s.reportSteps.SortedLE) (hstep : step ∈ s.reportSteps) :
    ∃ first last, s.firstOfReport step = .ok first ∧ s.lastOfReport step = .ok last ∧
      ∀ index, s.reportSteps[index]? = some step ↔ first ≤ index ∧ index ≤ last := by
  obtain ⟨first, last, hfirst, hlast, hplaces⟩ := exists_places_of_sorted h hstep
  exact ⟨first, last, by rw [firstOfReport, hfirst], by rw [lastOfReport, hlast], hplaces⟩

end Series

end Reservoir
