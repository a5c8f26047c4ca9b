import Mathlib.Algebra.Order.BigOperators.Group.List
import Reservoir.Proofs.Grid.Growth
import Reservoir.Proofs.Grid.RecordTable

/-!
Which records a grid takes. The main grid takes the first records of a file, and each refinement
goes on where the grid before it ends, so no record is taken twice.
-/

namespace Reservoir

open Outcome

theorem Grid.activeIndices_of_nonpos {values : List Int} {g : Nat} {a : Int}
    (h : values[g]? = some a) (ha : a ≤ 0) (next : Nat) :
    (activeIndices next values)[g]? = some none := by
  induction values generalizing g next with
  | nil => cases h
  | cons value values ih =>
    cases g with
    | zero =>
      cases h
      rw [activeIndices, if_neg (Int.not_lt.2 ha)]
      rfl
    | succ g =>
      unfold activeIndices
      split
      · exact ih h (next + 1)
      · exact ih h next

namespace Forest

def gridSizes (forest : Forest) : List Nat := forest.grids.map Grid.size

def firstRecord (forest : Forest) (id : Nat) : Nat := (forest.gridSizes.take id).sum

/-- How many of the records of a file a grid takes: one for each cell, as long as there are any. -/
def recordCount (forest : Forest) (records id : Nat) : Nat :=
  min (forest.gridSizes.getD id 0) (records - forest.firstRecord id)

def recordsOf (forest : Forest) (records id : Nat) : List Nat :=
  List.range' (forest.firstRecord id) (forest.recordCount records id)

variable {file : KeywordFile} {stream : Bytes} {axes : Option MapAxes} {records : Nat}
  {forest forest' : Forest}

theorem length_gridSizes (forest : Forest) :
    forest.gridSizes.length = forest.refinements.length + 1 := by
  rw [gridSizes, List.length_map, grids, List.length_cons]

theorem firstRecord_succ (forest : Forest) (id : Nat) :
    forest.firstRecord (id + 1) = forest.firstRecord id + forest.gridSizes.getD id 0 := by
  rw [firstRecord, firstRecord, List.take_add_one, List.sum_append]
  cases h : forest.gridSizes[id]? with
  | none => simp [List.getD_eq_getElem?_getD, h]
  | some size => simp [List.getD_eq_getElem?_getD, h]

theorem recordCount_main (forest : Forest) (records : Nat) :
    forest.recordCount records 0 = min records forest.main.size :=
  Nat.min_comm ..

theorem Installed.gridSizes_eq {r : Request} {p : Nat} {parent : Grid} {cells : List Nat}
    (h : forest.Installed r p parent cells forest') :
    forest'.gridSizes = forest.gridSizes ++ [r.grid.size] :=
  h.map_grids (f := Grid.size) fun _ => rfl

theorem getD_gridSizes {id : Nat} {grid : Grid} (h : forest.grid? id = some grid) :
    forest.gridSizes.getD id 0 = grid.size := by
  rw [gridSizes, List.getD_eq_getElem?_getD, List.getElem?_map, ← grid?, h, Option.map_some,
    Option.getD_some]

/-- A grid is what its records tell: the corners and the activity of its cells and, in a
refinement, their hosts. -/
def Tabled (file : KeywordFile) (stream : Bytes) (axes : Option MapAxes) (refinement : Bool)
    (first count : Nat) (grid : Grid) : Prop :=
  ∃ table, CellTable.read file stream grid.dims first count refinement axes = .ok table ∧
    grid.cells = table.cells ∧ grid.activity = table.activity ∧
    grid.activeIndex = (Grid.activeIndices 0 table.activity.toList).toArray ∧
    (refinement → table.hosts.toList = grid.hosts.toList.map some)

/-- Each grid takes its own records, those of the next grid would begin at `next`, and no
refinement lacks any. -/
structure Attributed (file : KeywordFile) (stream : Bytes) (axes : Option MapAxes) (records : Nat)
    (forest : Forest) (next : Nat) : Prop where
  next_eq : next = forest.gridSizes.sum
  enough : forest.refinements ≠ [] → next ≤ records
  main : Tabled file stream axes false 0 (min records forest.main.size) forest.main
  refinements : ∀ id grid, forest.grid? (id + 1) = some grid →
    Tabled file stream axes true (forest.firstRecord (id + 1)) grid.size grid

theorem Installed.tabled {r : Request} {p : Nat} {parent : Grid} {cells : List Nat}
    (h : forest.Installed r p parent cells forest') {id : Nat} {grid : Grid}
    (hid : id ≠ forest.refinements.length + 1) (hgrid : forest'.grid? id = some grid) :
    ∃ old, forest.grid? id = some old ∧ grid.size = old.size ∧
      ∀ refinement first count, Tabled file stream axes refinement first count old →
        Tabled file stream axes refinement first count grid := by
  rw [h.grid?_eq, if_neg hid] at hgrid
  obtain ⟨old, hold, rfl⟩ := Option.map_eq_some_iff.1 hgrid
  refine ⟨old, hold, ?_⟩
  split
  · exact ⟨rfl, fun _ _ _ htabled => htabled⟩
  · exact ⟨rfl, fun _ _ _ htabled => htabled⟩

theorem attributed_ofMain {dims : Dims} {table : CellTable}
    (h : CellTable.read file stream dims 0 (min records dims.size) false axes = .ok table) :
    Attributed file stream axes records (ofMain (table.toGrid mainName 0 dims)) dims.size where
  next_eq := (Nat.add_zero _).symm
  enough hne := absurd rfl hne
  main := ⟨table, h, Array.toArray_toList .., Array.toArray_toList .., rfl, by rintro ⟨⟩⟩
  refinements id grid hgrid := by cases hgrid

theorem Attributed.addRecorded {first next index : Nat}
    (h : Attributed file stream axes records forest first)
    (hstep : addRecorded file stream records axes forest first index = .ok (forest', next)) :
    Attributed file stream axes records forest' next := by
  obtain ⟨dims, names, table, -, -, hroom, htable, hinstall, rfl⟩ :=
    addRecorded_eq_ok.1 hstep
  obtain ⟨p, parent, cells, hi⟩ := @installed_of_install forest forest'
    ⟨table.toGrid names.1 index dims, table.hosts.toList, names.2⟩ hinstall
  have hlength := forest.length_gridSizes
  have hfirst : ∀ id ≤ forest.refinements.length + 1,
      forest'.firstRecord id = forest.firstRecord id := fun id hid => by
    rw [firstRecord, firstRecord, hi.gridSizes_eq, List.take_append_of_le_length (by omega)]
  constructor
  · rw [hi.gridSizes_eq, List.sum_append, List.sum_singleton, ← h.next_eq]
    rfl
  · exact fun _ => hroom
  · obtain ⟨old, hold, hsize, hkeep⟩ := hi.tabled (Nat.zero_ne_add_one _)
      (show forest'.grid? 0 = some forest'.main from rfl)
    cases hold
    exact hkeep _ _ _ (hsize ▸ h.main)
  · intro id grid hid
    by_cases hnew : id + 1 = forest.refinements.length + 1
    · rw [hnew, hi.grid?_new] at hid
      cases hid
      have htotal : forest.firstRecord (forest.refinements.length + 1) = first := by
        rw [firstRecord, ← hlength, List.take_length, h.next_eq]
      rw [hnew, hfirst _ (Nat.le_refl _), htotal]
      exact ⟨table, htable, Array.toArray_toList .., Array.toArray_toList .., rfl,
        fun _ => hi.hosts_eq⟩
    · obtain ⟨old, hold, hsize, hkeep⟩ := hi.tabled hnew hid
      have hlt : id < forest.refinements.length := by
        have hbound := (List.getElem?_eq_some_iff.1 hold).1
        rw [grids, List.length_cons] at hbound
        omega
      rw [hfirst _ (by omega), hsize]
      exact hkeep _ _ _ (h.refinements id old hold)

/-- The grids of a file of cell records take their records one after another. -/
theorem attributed_ofRecords (h : ofRecords file stream axes = .ok forest) :
    ∃ next, Attributed file stream axes (file.catalog.count "COORDS") forest next := by
  obtain ⟨-, dims, table, next, -, htable, hall⟩ := ofRecords_eq_ok.1 h
  exact ⟨next, foldlM_invariant
    (P := fun state : Forest × Nat =>
      Attributed file stream axes (file.catalog.count "COORDS") state.1 state.2)
    (fun _ _ _ hstate => hstate.addRecorded) (attributed_ofMain htable) hall⟩

namespace Attributed

variable {next : Nat}

theorem firstRecord_le (h : Attributed file stream axes records forest next) (id : Nat) :
    forest.firstRecord id ≤ next := by
  rw [h.next_eq, firstRecord]
  exact Nat.le.intro (List.sum_take_add_sum_drop forest.gridSizes id)

theorem recordCount_eq (h : Attributed file stream axes records forest next)
    (hne : forest.refinements ≠ []) (id : Nat) :
    forest.recordCount records id = forest.gridSizes.getD id 0 := by
  have hlast := h.firstRecord_le (id + 1)
  rw [firstRecord_succ] at hlast
  have hroom := h.enough hne
  exact Nat.min_eq_left (by omega)

/-- Every grid is what the records tell that it takes. -/
theorem tabled (h : Attributed file stream axes records forest next) {id : Nat} {grid : Grid}
    (hgrid : forest.grid? id = some grid) :
    Tabled file stream axes (id != 0) (forest.firstRecord id) (forest.recordCount records id)
      grid := by
  cases id with
  | zero =>
    cases hgrid
    rw [recordCount_main]
    exact h.main
  | succ id =>
    have hne : forest.refinements ≠ [] := List.ne_nil_of_mem (List.mem_of_getElem? hgrid)
    rw [h.recordCount_eq hne, getD_gridSizes hgrid]
    exact h.refinements id grid hgrid

end Attributed

end Forest

end Reservoir
