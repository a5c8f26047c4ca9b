import Reservoir.Proofs.Grid.Growth
import Reservoir.Proofs.Grid.RecordTable
import Reservoir.Proofs.Grid.Sections

/-!
Forests that are made, of keywords at hand or of a file in either layout. Each of their grids has
dimensions above zero and layers that words count, and a cell for every number.
-/

namespace Reservoir

open Outcome Keyword

structure Grid.Formed (grid : Grid) : Prop where
  positive : grid.dims.Positive
  layer_lt : grid.dims.nx * grid.dims.ny < 2 ^ 64
  size_cells : grid.cells.size = grid.size

theorem Grid.Formed.place_eq {grid : Grid} (h : grid.Formed) (g : Nat) :
    grid.dims.place g = grid.dims.nth g :=
  Dims.place_eq h.layer_lt g

namespace Grid

theorem pos_of_axisSize {axis : String} {n : Int} {size : Nat} (h : axisSize axis n = .ok size) :
    0 < size := by
  unfold axisSize at h
  split at h
  · next hpos =>
    cases h
    exact Int.lt_toNat.2 hpos
  · cases h

theorem positive_of_dimsFrom {context : String} {start : Nat} {values : List Int} {dims : Dims}
    (h : dimsFrom context start values = .ok dims) : dims.Positive := by
  unfold dimsFrom at h
  split at h
  · obtain ⟨nx, hx, h⟩ := bind_eq_ok.1 h
    obtain ⟨ny, hy, h⟩ := bind_eq_ok.1 h
    obtain ⟨nz, hz, h⟩ := bind_eq_ok.1 h
    cases h
    exact ⟨pos_of_axisSize hx, pos_of_axisSize hy, pos_of_axisSize hz⟩
  · cases h

theorem formed_ofArrays {dims : Dims} {pillars depths : Keyword} {stored : Option Keyword}
    {arrays : Arrays} {name : String} {number : Int} {axes : Option MapAxes} {grid : Grid}
    (hpos : dims.Positive) (harrays : arraysOf dims pillars depths stored = .ok arrays)
    (h : ofArrays name number dims arrays axes = .ok grid) : grid.Formed := by
  have hdepths := depthCount_lt_of_ofArrays harrays h
  obtain ⟨cells, hcells, rfl, -⟩ := ofArrays_eq_ok h
  have hcount : dims.count < 2 ^ 64 := by
    rw [dims.depthCount_eq] at hdepths
    omega
  refine ⟨hpos, Nat.lt_of_le_of_lt (Nat.le_mul_of_pos_right _ hpos.2.2) hcount, ?_⟩
  exact hcells.trans (Dims.size_eq hcount).symm

end Grid

namespace Forest

variable {file : KeywordFile} {stream : Bytes} {axes : Option MapAxes} {forest forest' : Forest}

theorem positive_of_sectionDims {part : Catalog} {dims : Dims} {declared : Option Int}
    (h : sectionDims file stream part = .ok (dims, declared)) : dims.Positive := by
  obtain ⟨head, -, h⟩ := bind_eq_ok.1 h
  cases head with
  | some head =>
    obtain ⟨values, -, h⟩ := bind_eq_ok.1 h
    obtain ⟨dims, hdims, h⟩ := bind_eq_ok.1 h
    cases h
    exact Grid.positive_of_dimsFrom hdims
  | none =>
    obtain ⟨dimens, -, h⟩ := bind_eq_ok.1 h
    cases dimens with
    | none => cases h
    | some dimens =>
      obtain ⟨values, -, h⟩ := bind_eq_ok.1 h
      obtain ⟨dims, hdims, h⟩ := bind_eq_ok.1 h
      cases h
      exact Grid.positive_of_dimsFrom hdims

theorem bounds_of_recordedDims {index : Nat} {dims : Dims}
    (h : recordedDims file stream index = .ok dims) :
    dims.Positive ∧ dims.nx * dims.ny < 2 ^ 64 := by
  obtain ⟨k, -, h⟩ := bind_eq_ok.1 h
  obtain ⟨values, hvalues, h⟩ := bind_eq_ok.1 h
  split at h
  · next nx ny nz rest =>
    split at h
    · next hpos =>
      have hx : nx < 2 ^ 31 := lt_of_mem_integers hvalues (by simp)
      have hy : ny < 2 ^ 31 := lt_of_mem_integers hvalues (by simp)
      cases h
      refine ⟨⟨Int.lt_toNat.2 hpos.1, Int.lt_toNat.2 hpos.2.1, Int.lt_toNat.2 hpos.2.2⟩, ?_⟩
      calc nx.toNat * ny.toNat
          ≤ 2 ^ 31 * 2 ^ 31 := Nat.mul_le_mul (by omega) (by omega)
        _ < 2 ^ 64 := by decide
    · cases h
  · cases h

theorem formed_of_read {dims : Dims} {index first count : Nat} {refinement : Bool}
    {table : CellTable} (hdims : recordedDims file stream index = .ok dims)
    (h : CellTable.read file stream dims first count refinement axes = .ok table) (name : String)
    (number : Int) : (table.toGrid name number dims).Formed := by
  obtain ⟨hpos, hlayer⟩ := bounds_of_recordedDims hdims
  obtain ⟨ts, -, rfl⟩ := (CellTable.read_eq_ok ..).1 h
  refine ⟨hpos, hlayer, ?_⟩
  show (CellTable.toGrid _ name number dims).cells.size = dims.size
  rw [CellTable.toGrid, Grid.ofCells, List.size_toArray, Array.length_toList,
    (CellTable.size_foldl_tell ..).1, CellTable.empty, Array.size_replicate]

theorem formed_of_sectionGrid {part : Catalog} {name : String} {number : Int} {grid : Grid}
    (h : sectionGrid file stream part name number axes = .ok grid) : grid.Formed := by
  obtain ⟨dims, declared, arrays, hdims, ⟨pillars, depths, stored, -, harrays⟩, hmade⟩ :=
    sectionGrid_eq_ok h
  exact Grid.formed_ofArrays (positive_of_sectionDims hdims) harrays hmade

def AllFormed (forest : Forest) : Prop := ∀ grid ∈ forest.grids, grid.Formed

theorem AllFormed.install {grid : Grid} {hosts : List (Option Nat)} {parent : String}
    (hall : forest.AllFormed) (h : forest.install grid hosts parent = .ok forest')
    (hgrid : grid.Formed) : forest'.AllFormed := by
  obtain ⟨p, parentGrid, cells, hi⟩ :=
    @installed_of_install forest forest' ⟨grid, hosts, parent⟩ h
  exact hi.forall_grids (fun _ h => ⟨h.1, h.2, h.3⟩) ⟨hgrid.1, hgrid.2, hgrid.3⟩ hall

theorem AllFormed.addSection {part : Catalog} {index : Nat} (hall : forest.AllFormed)
    (h : addSection file stream axes forest part index = .ok forest') : forest'.AllFormed := by
  obtain ⟨name, parent, grid, hosts, -, hgrid, -, hinstall⟩ := addSection_eq_ok h
  exact hall.install hinstall (formed_of_sectionGrid hgrid)

theorem AllFormed.addRecorded {records first next index : Nat} (hall : forest.AllFormed)
    (h : addRecorded file stream records axes forest first index = .ok (forest', next)) :
    forest'.AllFormed := by
  obtain ⟨dims, names, table, hdims, -, -, hread, hinstall, -⟩ := addRecorded_eq_ok.1 h
  exact hall.install hinstall (formed_of_read hdims hread names.1 index)

/-- A forest that is made of keywords at hand or of a file in either layout. -/
inductive Made : Forest → Prop where
  | keywords {dims : Dims} {pillars depths : Keyword} {activity axes : Option Keyword}
      {forest : Forest} (made : ofKeywords dims pillars depths activity axes = .ok forest) :
      Made forest
  | file {file : KeywordFile} {stream : Bytes} {applyAxes : Bool} {forest : Forest}
      (made : build file stream applyAxes = .ok forest) : Made forest

end Forest

end Reservoir
