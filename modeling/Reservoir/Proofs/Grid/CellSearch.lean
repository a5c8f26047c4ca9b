import Mathlib.Order.Bounds.Basic
import Reservoir.Proofs.Grid.Made
import Reservoir.Proofs.Grid.Written

/-!
Searching a grid for a cell. The layers hold the cells of the grid in their order, each cell once,
so the first cell that is found layer by layer is the first one of all.
-/

namespace Reservoir

open Outcome

namespace Dims

variable {d : Dims} {g k : Nat}

theorem layer_le (hk : k < d.nz) : k * (d.nx * d.ny) + d.nx * d.ny ≤ d.count := by
  rw [count, Nat.mul_comm _ d.nz, ← Nat.succ_mul]
  exact Nat.mul_le_mul_right _ hk

theorem flatMap_layers (d : Dims) :
    (List.range d.nz).flatMap (fun k => List.range' (k * (d.nx * d.ny)) (d.nx * d.ny)) =
      List.range d.count := by
  rw [count]
  induction d.nz with
  | zero => rfl
  | succ n ih =>
    rw [List.range_succ, List.flatMap_append, ih, List.flatMap_singleton, Nat.mul_succ,
      List.range_add, ← List.range'_eq_map_range, Nat.mul_comm n]

end Dims

namespace Grid

variable {grid : Grid} {test : Cell → Bool} {g k : Nat}

def Passes (grid : Grid) (test : Cell → Bool) (g : Nat) : Prop :=
  ∃ cell, grid.cell g = .ok cell ∧ test cell = true

theorem passes_iff :
    grid.Passes test g ↔ g < grid.size ∧ (grid.cells[g]?).any test = true := by
  simp only [Passes, cell, lookup_eq_ok, Option.any_eq_true, and_assoc, exists_and_left]

theorem findFrom_eq {left first : Nat} (h : first + left ≤ grid.cells.size) :
    grid.findFrom test left first =
      .ok ((List.range' first left).find? fun g => (grid.cells[g]?).any test) := by
  induction left generalizing first with
  | zero => rfl
  | succ left ih =>
    have hfound : grid.cells[first]? = some grid.cells[first] :=
      Array.getElem?_eq_getElem (by omega)
    rw [findFrom, List.range'_succ, List.find?_cons, hfound, Option.any_some]
    dsimp only
    cases test grid.cells[first] with
    | true => rfl
    | false => exact ih (by omega)

structure Counted (grid : Grid) : Prop extends grid.Formed where
  count_lt : grid.dims.count < 2 ^ 64

theorem Counted.size_eq (h : grid.Counted) : grid.size = grid.dims.count := Dims.size_eq h.count_lt

theorem Counted.findInLayer_eq (h : grid.Counted) (hk : k < grid.dims.nz) :
    grid.findInLayer k test = .ok ((List.range' (k * (grid.dims.nx * grid.dims.ny))
      (grid.dims.nx * grid.dims.ny)).find? fun g => (grid.cells[g]?).any test) := by
  have hend := Dims.layer_le hk
  have hword := h.count_lt
  have hlayer : grid.dims.layer = grid.dims.nx * grid.dims.ny := wrap_of_lt h.layer_lt
  have hcells := h.size_cells.trans h.size_eq
  rw [findInLayer, if_pos hk, hlayer]
  dsimp only
  rw [wrap_of_lt (show k * (grid.dims.nx * grid.dims.ny) < 2 ^ 64 by omega),
    wrap_of_lt (Nat.lt_of_le_of_lt hend hword), Nat.add_sub_cancel_left, findFrom_eq (by omega)]

namespace LayerAnswer

variable {answer : Outcome (Option Nat)}

end LayerAnswer

variable {p : Point}

theorem Counted.findLayers_eq (h : grid.Counted) (p : Point) {left k : Nat}
    (hk : k + left ≤ grid.dims.nz) :
    grid.findLayers p left k = .ok (((List.range' k left).flatMap fun k =>
      List.range' (k * (grid.dims.nx * grid.dims.ny)) (grid.dims.nx * grid.dims.ny)).find?
        fun g => (grid.cells[g]?).any (·.contains p)) := by
  induction left generalizing k with
  | zero => rfl
  | succ left ih =>
    have hback := @ih (k + 1) (by omega)
    rw [findLayers, findPoint, h.findInLayer_eq (by omega), ok_bind, List.range'_succ,
      List.flatMap_cons, List.find?_append]
    split
    · next g hfound => rw [hfound]; rfl
    · next hnone => rw [hnone, Option.none_or, hback]

/-- Searched layer by layer, all cells are searched in their order. -/
theorem Counted.find?_eq (h : grid.Counted) (p : Point) :
    grid.find? p =
      .ok ((List.range' 0 grid.size).find? fun g => (grid.cells[g]?).any (·.contains p)) := by
  rw [find?, h.findLayers_eq p (by omega), ← List.range_eq_range', Dims.flatMap_layers, h.size_eq,
    List.range_eq_range']

theorem passes_iff_mem_range' :
    grid.Passes test g ↔
      g ∈ List.range' 0 grid.size ∧ (grid.cells[g]?).any test = true := by
  rw [passes_iff, List.mem_range'_1, Nat.zero_add, and_iff_right (Nat.zero_le g)]

theorem Counted.find?_eq_none (h : grid.Counted) :
    grid.find? p = .ok none ↔ ∀ g, ¬grid.Passes (·.contains p) g := by
  simp only [h.find?_eq, Except.ok.injEq, List.find?_eq_none, passes_iff_mem_range', not_and]

end Grid

end Reservoir
