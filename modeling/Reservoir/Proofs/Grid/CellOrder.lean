import Mathlib.Data.List.GetD
import Reservoir.Proofs.Grid.Sections

/-!
Grids from cell records. Records that address every cell of a grid once make up the same grid in
any order, so a file that records the grids of a blueprint is read as these grids put together.
-/

namespace Reservoir

open Outcome

def Cell.coordinates (cell : Cell) : List Float := cell.toList.flatMap fun p => [p.x, p.y, p.z]

def Grid.Arrays.activityAt (arrays : Grid.Arrays) (g : Nat) : Int :=
  (arrays.activity.map (·.getD g 1)).getD 1

theorem pointAt_append (front back : List Float) (start : Nat) :
    pointAt (front ++ back).toArray (front.length + start) = pointAt back.toArray start := by
  have hget : ∀ i, (front ++ back).toArray.getD (front.length + i) 0 = back.toArray.getD i 0 := by
    intro i
    simp only [Array.getD_eq_getD_getElem?, List.getElem?_toArray, List.getElem?_append_right,
      Nat.le_add_right, Nat.add_sub_cancel_left]
  simp only [pointAt, Nat.add_assoc, hget]

theorem pointAt_coordinates (ps : List Point) {c : Nat} (hc : c < ps.length) :
    pointAt (ps.flatMap fun p => [p.x, p.y, p.z]).toArray (3 * c) = ps[c] := by
  induction ps generalizing c with
  | nil => exact absurd hc (Nat.not_lt_zero c)
  | cons p ps ih =>
    rw [List.flatMap_cons]
    cases c with
    | zero => rfl
    | succ c =>
      have hback := pointAt_append [p.x, p.y, p.z] (ps.flatMap fun p => [p.x, p.y, p.z]) (3 * c)
      rw [Nat.mul_succ, Nat.add_comm, List.getElem_cons_succ, ← ih (Nat.lt_of_succ_lt_succ hc)]
      exact hback

theorem CellTable.cellOf_coordinates (axes : Option MapAxes) (cell : Cell) :
    cellOf axes cell.coordinates.toArray = cell.map (Grid.onMap axes) := by
  apply Vector.ext
  intro c hc
  have hlist : c < cell.toList.length := by rwa [Vector.length_toList]
  rw [cellOf, Vector.getElem_ofFn, Vector.getElem_map, Cell.coordinates,
    pointAt_coordinates cell.toList hlist, Vector.getElem_toList]

structure CellRecord where
  coords : Keyword
  corners : Keyword

/-- A record describes a cell of a grid: its place, counted from 1, its activity, its corners and,
in a refinement, the one of `hosts` that it lies in. -/
structure CellRecord.Describes (dims : Dims) (arrays : Grid.Arrays) (hosts : Option (List Int))
    (g : Nat) (r : CellRecord) : Prop where
  coords : ∃ fourth tail, r.coords.integers =
      .ok (((dims.nth g).i + 1 : Int) :: ((dims.nth g).j + 1 : Int) ::
        ((dims.nth g).k + 1 : Int) :: fourth :: arrays.activityAt g :: tail) ∧
    (tail.length = 2 ∨ hosts = none ∧ tail = []) ∧
    ∀ cells, hosts = some cells → tail[0]? = some (cells.getD g 0)
  corners : r.corners.count = 24 ∧ ∃ values, r.corners.doubles = .ok values ∧
    values.map Double.toFloat = (arrays.cellAt dims g).coordinates

def KeywordFile.LoadsRecords (file : KeywordFile) (stream : Bytes) (first : Nat)
    (records : List CellRecord) : Prop :=
  ∀ i r, records[i]? = some r → file.loadNamed stream "COORDS" (first + i) = .ok r.coords ∧
    file.loadNamed stream "CORNERS" (first + i) = .ok r.corners

namespace KeywordFile.LoadsRecords

variable {file : KeywordFile} {stream : Bytes} {first : Nat} {r : CellRecord}
  {front records : List CellRecord}

theorem cons (h : file.LoadsRecords stream first (r :: records)) :
    (file.loadNamed stream "COORDS" first = .ok r.coords ∧
      file.loadNamed stream "CORNERS" first = .ok r.corners) ∧
    file.LoadsRecords stream (first + 1) records := by
  refine ⟨h 0 r rfl, fun i other hother => ?_⟩
  rw [Nat.add_assoc, Nat.add_comm 1]
  exact h (i + 1) other hother

theorem append (h : file.LoadsRecords stream first (front ++ records)) :
    file.LoadsRecords stream first front ∧
      file.LoadsRecords stream (first + front.length) records := by
  refine ⟨fun i other hother => h i other ?_, fun i other hother => ?_⟩
  · rw [List.getElem?_append_left (List.getElem?_eq_some_iff.1 hother).1, hother]
  · rw [Nat.add_assoc]
    refine h (front.length + i) other ?_
    rw [List.getElem?_append_right (Nat.le_add_right ..), Nat.add_sub_cancel_left, hother]

end KeywordFile.LoadsRecords

namespace CellTable

variable {file : KeywordFile} {stream : Bytes} {dims : Dims} {arrays : Grid.Arrays}
  {hosts : Option (List Int)}

theorem cellNumber_eq (hword : dims.count < 2 ^ 64) {g : Nat} (hg : g < dims.count) (record : Nat)
    (rest : List Int) :
    cellNumber dims record (((dims.nth g).i + 1 : Int) :: ((dims.nth g).j + 1 : Int) ::
      ((dims.nth g).k + 1 : Int) :: rest) = .ok g := by
  have hpos : ∀ n : Nat, 0 < (n + 1 : Int) := fun n => by omega
  have hback : ∀ n : Nat, ((n + 1 : Int) - 1).toNat = n := fun n => by omega
  have hplace := Dims.contains_nth hg
  simp only [cellNumber, hpos, hback, true_and, if_pos hplace, Dims.number_eq hword hplace,
    Dims.rank_nth]

theorem checkLength_eq {record count : Nat} {refinement : Bool}
    (h : count = 7 ∨ refinement = false ∧ count = 5) :
    checkLength record count refinement = .ok () := by
  rcases h with rfl | ⟨rfl, rfl⟩ <;> rfl

theorem addRecord_eq (hword : dims.count < 2 ^ 64) {g record : Nat} {r : CellRecord}
    (hg : g < dims.count)
    (hcoords : file.loadNamed stream "COORDS" record = .ok r.coords)
    (hcorners : file.loadNamed stream "CORNERS" record = .ok r.corners)
    (h : r.Describes dims arrays hosts g) (axes : Option MapAxes) (table : CellTable) :
    ∃ table', addRecord file stream dims hosts.isSome axes table record = .ok table' ∧
      table'.cells =
        table.cells.setIfInBounds g ((arrays.cellAt dims g).map (Grid.onMap axes)) ∧
      table'.activity = table.activity.setIfInBounds g (arrays.activityAt g) ∧
      ∀ cells, hosts = some cells →
        table'.hosts = table.hosts.setIfInBounds g (Forest.hostCell (cells.getD g 0)) := by
  obtain ⟨fourth, tail, hvalues, hlength, htail⟩ := h.coords
  obtain ⟨hcount, values, hdoubles, hfloats⟩ := h.corners
  have hcheck : checkLength record (tail.length + 1 + 1 + 1 + 1 + 1) hosts.isSome = .ok () := by
    refine checkLength_eq ?_
    rcases hlength with hlength | ⟨rfl, rfl⟩
    · exact .inl (by omega)
    · exact .inr ⟨rfl, rfl⟩
  have hcell := cellOf_coordinates axes (arrays.cellAt dims g)
  simp only [addRecord, hcoords, hcorners, Grid.checkCount_eq_ok.2 hcount, hvalues,
    List.length_cons, hcheck, cellNumber_eq hword hg, Dims.size_eq hword, if_pos hg, hdoubles,
    hfloats, hcell, ok_bind, pure_eq]
  refine ⟨_, rfl, rfl, rfl, fun cells hcells => ?_⟩
  have hhost := htail cells hcells
  simp only [set, List.getElem?_cons_succ, hhost]

theorem addRecords_eq (hword : dims.count < 2 ^ 64) {order : List Nat} {records : List CellRecord}
    (h : List.Forall₂ (CellRecord.Describes dims arrays hosts) order records)
    (horder : ∀ g ∈ order, g < dims.count) {first : Nat}
    (hloads : file.LoadsRecords stream first records) (axes : Option MapAxes) (table : CellTable) :
    ∃ table', (List.range' first records.length).foldlM
        (addRecord file stream dims hosts.isSome axes) table = .ok table' ∧
      table'.cells = order.foldl (fun xs g =>
        xs.setIfInBounds g ((arrays.cellAt dims g).map (Grid.onMap axes))) table.cells ∧
      table'.activity =
        order.foldl (fun xs g => xs.setIfInBounds g (arrays.activityAt g)) table.activity ∧
      ∀ cells, hosts = some cells → table'.hosts = order.foldl (fun xs g =>
        xs.setIfInBounds g (Forest.hostCell (cells.getD g 0))) table.hosts := by
  induction h generalizing first table with
  | nil => exact ⟨table, rfl, rfl, rfl, fun cells hcells => rfl⟩
  | @cons g r order records hr tail ih =>
    simp only [List.mem_cons, forall_eq_or_imp] at horder
    obtain ⟨⟨hcoords, hcorners⟩, hback⟩ := hloads.cons
    obtain ⟨next, hnext, hcells, hactivity, hhosts⟩ :=
      addRecord_eq hword horder.1 hcoords hcorners hr axes table
    obtain ⟨table', htable, hcells', hactivity', hhosts'⟩ := ih horder.2 hback next
    refine ⟨table', ?_, ?_, ?_, fun cells hsome => ?_⟩
    · rw [List.length_cons, List.range'_succ, List.foldlM_cons, hnext, ok_bind, htable]
    · rw [hcells', hcells, List.foldl_cons]
    · rw [hactivity', hactivity, List.foldl_cons]
    · rw [hhosts' cells hsome, hhosts cells hsome, List.foldl_cons]

theorem toList_foldl_setIfInBounds {α : Type} (f : Nat → α) {order : List Nat} {xs : Array α}
    (h : order.Perm (List.range xs.size)) :
    (order.foldl (fun xs g => xs.setIfInBounds g (f g)) xs).toList =
      (List.range xs.size).map f := by
  apply List.ext_getElem?
  intro g
  rw [Array.getElem?_toList, getElem?_foldl_setIfInBounds, List.getElem?_map]
  by_cases hg : g < xs.size
  · rw [if_pos ⟨h.mem_iff.2 (List.mem_range.2 hg), hg⟩, List.getElem?_range hg, Option.map_some]
  · rw [if_neg (fun hboth => hg hboth.2), Array.getElem?_eq_none (Nat.le_of_not_lt hg),
      List.getElem?_eq_none (by rw [List.length_range]; omega), Option.map_none]

theorem read_eq (hword : dims.count < 2 ^ 64) {order : List Nat} {records : List CellRecord}
    (h : List.Forall₂ (CellRecord.Describes dims arrays hosts) order records)
    (horder : order.Perm (List.range dims.count)) {first : Nat}
    (hloads : file.LoadsRecords stream first records) (axes : Option MapAxes) :
    ∃ table, read file stream dims first dims.size hosts.isSome axes = .ok table ∧
      table.cells.toList =
        (List.range dims.count).map (fun g => (arrays.cellAt dims g).map (Grid.onMap axes)) ∧
      table.activity.toList = (List.range dims.count).map arrays.activityAt ∧
      ∀ cells, hosts = some cells → table.hosts.toList =
        (List.range dims.count).map (fun g => Forest.hostCell (cells.getD g 0)) := by
  have hsize : records.length = dims.count := by
    rw [← h.length_eq, horder.length_eq, List.length_range]
  obtain ⟨table, hread, hcells, hactivity, hhosts⟩ := addRecords_eq hword h
    (fun g hg => List.mem_range.1 (horder.mem_iff.1 hg)) hloads axes (empty dims.count)
  rw [hsize] at hread
  refine ⟨table, by rw [read, Dims.size_eq hword, hread], ?_, ?_, fun cells hsome => ?_⟩
  · have hall : order.Perm (List.range (empty dims.count).cells.size) := by
      rwa [empty, Array.size_replicate]
    rw [hcells, toList_foldl_setIfInBounds _ hall, empty, Array.size_replicate]
  · have hall : order.Perm (List.range (empty dims.count).activity.size) := by
      rwa [empty, Array.size_replicate]
    rw [hactivity, toList_foldl_setIfInBounds _ hall, empty, Array.size_replicate]
  · have hall : order.Perm (List.range (empty dims.count).hosts.size) := by
      rwa [empty, Array.size_replicate]
    rw [hhosts cells hsome, toList_foldl_setIfInBounds _ hall, empty, Array.size_replicate]

end CellTable

end Reservoir
