import Reservoir.Proofs.Grid.CellOrder

/-!
Files of cell records. A file that records every cell of the grids of a blueprint is read as these
grids put together, one refinement after the other.
-/

namespace Reservoir

open Outcome

structure RecordedGrid where
  dimens : Keyword
  records : List CellRecord

structure RecordedRefinement extends RecordedGrid where
  lgr : Keyword

/-- The keywords of a file that records its grids cell by cell. -/
structure RecordedFile extends RecordedGrid where
  axes : Option Keyword
  refinements : List RecordedRefinement

namespace CellRecord

def keywords (r : CellRecord) : List Keyword := [r.coords, r.corners]

structure Named (r : CellRecord) : Prop where
  coords : r.coords.name.val = "COORDS"
  corners : r.corners.name.val = "CORNERS"

end CellRecord

namespace RecordedGrid

structure Named (g : RecordedGrid) : Prop where
  dimens : g.dimens.name.val = "DIMENS"
  records : ∀ r ∈ g.records, r.Named

/-- The cells of a grid are recorded, each of them once, in any order. -/
structure Stores (g : RecordedGrid) (dims : Dims) (arrays : Grid.Arrays)
    (hosts : Option (List Int)) : Prop where
  named : g.Named
  positive : dims.Positive
  shape : ∃ rest, g.dimens.integers = .ok (dims.values ++ rest)
  cells : ∃ order : List Nat, order.Perm (List.range dims.count) ∧
    List.Forall₂ (CellRecord.Describes dims arrays hosts) order g.records

theorem Stores.length_records {g : RecordedGrid} {dims : Dims} {arrays : Grid.Arrays}
    {hosts : Option (List Int)} (h : g.Stores dims arrays hosts) :
    g.records.length = dims.count := by
  obtain ⟨order, horder, hcells⟩ := h.cells
  rw [← hcells.length_eq, horder.length_eq, List.length_range]

end RecordedGrid

namespace RecordedRefinement

def keywords (r : RecordedRefinement) : List Keyword :=
  r.lgr :: r.dimens :: r.records.flatMap CellRecord.keywords

structure Stores (recorded : RecordedRefinement) (r : Refinement) : Prop where
  lgr_named : recorded.lgr.name.val = "LGR"
  name : recorded.lgr.getString 0 = .ok r.name
  parent : (recorded.lgr.count ≤ 1 ∧ r.parent = "") ∨
    (1 < recorded.lgr.count ∧ recorded.lgr.getString 1 = .ok r.parent)
  grid : recorded.toRecordedGrid.Stores r.dims r.arrays (some r.hosts)

end RecordedRefinement

namespace RecordedFile

def front (f : RecordedFile) : List Keyword :=
  f.dimens :: f.axes.toList ++ f.records.flatMap CellRecord.keywords

def keywords (f : RecordedFile) : List Keyword :=
  f.front ++ (f.refinements.map RecordedRefinement.keywords).flatten

def allRecords (f : RecordedFile) : List CellRecord :=
  f.records ++ f.refinements.flatMap fun r => r.records

structure Stores (f : RecordedFile) (b : Blueprint) : Prop where
  main : f.toRecordedGrid.Stores b.dims b.arrays none
  axes_named : ∀ k, f.axes = some k → k.name.val = "MAPAXES"
  refinements : List.Forall₂ RecordedRefinement.Stores f.refinements b.refinements

end RecordedFile

namespace Keyword

theorem notMem_names {name : String} {ks : List Keyword} :
    name ∉ names ks ↔ called name ks = [] := by
  simp [names, called]

end Keyword

open Keyword

namespace CellRecord.Named

variable {r : CellRecord}

theorem called_coords (h : r.Named) : called "COORDS" r.keywords = [r.coords] := by
  simp [called, keywords, h.coords, h.corners]

theorem called_corners (h : r.Named) : called "CORNERS" r.keywords = [r.corners] := by
  simp [called, keywords, h.coords, h.corners]

theorem called_other (h : r.Named) (name : String) (hname : name ∉ ["COORDS", "CORNERS"]) :
    called name r.keywords = [] := by
  simp only [List.mem_cons, List.not_mem_nil, or_false, not_or] at hname
  simp [called, keywords, h.coords, h.corners, Ne.symm hname.1, Ne.symm hname.2]

end CellRecord.Named

namespace RecordedGrid.Named

variable {g : RecordedGrid}

theorem called_coords (h : g.Named) :
    called "COORDS" (g.records.flatMap CellRecord.keywords) = g.records.map CellRecord.coords := by
  rw [called_flatMap, List.flatMap_congr fun r hr => (h.records r hr).called_coords,
    ← List.map_eq_flatMap]

theorem called_corners (h : g.Named) :
    called "CORNERS" (g.records.flatMap CellRecord.keywords) =
      g.records.map CellRecord.corners := by
  rw [called_flatMap, List.flatMap_congr fun r hr => (h.records r hr).called_corners,
    ← List.map_eq_flatMap]

theorem called_other (h : g.Named) (name : String) (hname : name ∉ ["COORDS", "CORNERS"]) :
    called name (g.records.flatMap CellRecord.keywords) = [] := by
  rw [called_flatMap, List.flatMap_congr fun r hr => (h.records r hr).called_other name hname]
  simp

end RecordedGrid.Named

structure RecordedRefinement.Named (r : RecordedRefinement) : Prop where
  lgr : r.lgr.name.val = "LGR"
  grid : r.toRecordedGrid.Named

namespace RecordedRefinement.Named

variable {r : RecordedRefinement}

theorem called_coords (h : r.Named) :
    called "COORDS" r.keywords = r.records.map CellRecord.coords := by
  simp [keywords, called_cons, h.lgr, h.grid.dimens, h.grid.called_coords]

theorem called_corners (h : r.Named) :
    called "CORNERS" r.keywords = r.records.map CellRecord.corners := by
  simp [keywords, called_cons, h.lgr, h.grid.dimens, h.grid.called_corners]

theorem called_dimens (h : r.Named) : called "DIMENS" r.keywords = [r.dimens] := by
  have hnone := h.grid.called_other "DIMENS" (by decide)
  simp [keywords, called_cons, h.lgr, h.grid.dimens, hnone]

theorem called_lgr (h : r.Named) : called "LGR" r.keywords = [r.lgr] := by
  have hnone := h.grid.called_other "LGR" (by decide)
  simp [keywords, called_cons, h.lgr, h.grid.dimens, hnone]

theorem called_other (h : r.Named) (name : String)
    (hname : name ∉ ["COORDS", "CORNERS", "DIMENS", "LGR"]) : called name r.keywords = [] := by
  simp only [List.mem_cons, List.not_mem_nil, or_false, not_or] at hname
  have hnone := h.grid.called_other name (by simp [hname])
  simp [keywords, called_cons, h.lgr, h.grid.dimens, hnone, Ne.symm hname.2.2.1,
    Ne.symm hname.2.2.2]

theorem isSection (h : r.Named) : IsSection "LGR" (names r.keywords) := by
  refine ⟨names (r.dimens :: r.records.flatMap CellRecord.keywords), ?_, ?_⟩
  · rw [keywords, names, List.map_cons, h.lgr]
    rfl
  · rw [notMem_names, called_cons, h.grid.dimens, if_neg (by decide),
      h.grid.called_other _ (by decide)]

end RecordedRefinement.Named

structure RecordedFile.Named (f : RecordedFile) : Prop where
  main : f.toRecordedGrid.Named
  axes : ∀ k, f.axes = some k → k.name.val = "MAPAXES"
  refinements : ∀ r ∈ f.refinements, r.Named

namespace RecordedFile.Named

variable {f : RecordedFile}

theorem called_axes (h : f.Named) {name : String} (hname : name ≠ "MAPAXES") :
    called name f.axes.toList = [] := by
  cases haxes : f.axes with
  | none => rfl
  | some k => simp [called, h.axes k haxes, Ne.symm hname]

theorem called_front (h : f.Named) {name : String} (hname : name ≠ "MAPAXES") :
    called name f.front = (if "DIMENS" = name then [f.dimens] else []) ++
      called name (f.records.flatMap CellRecord.keywords) := by
  rw [front, List.cons_append, called_cons, called_append, h.main.dimens, h.called_axes hname]
  split <;> rfl

theorem called_keywords {name : String} {pick : RecordedRefinement → List Keyword}
    (hpick : ∀ r ∈ f.refinements, called name r.keywords = pick r) :
    called name f.keywords = called name f.front ++ f.refinements.flatMap pick := by
  rw [keywords, called_append, ← List.flatMap_def, called_flatMap, List.flatMap_congr hpick]

theorem called_coords (h : f.Named) :
    called "COORDS" f.keywords = f.allRecords.map CellRecord.coords := by
  rw [called_keywords fun r hr => (h.refinements r hr).called_coords,
    h.called_front (by decide), if_neg (by decide), List.nil_append, h.main.called_coords,
    allRecords, List.map_append, List.map_flatMap]

theorem called_corners (h : f.Named) :
    called "CORNERS" f.keywords = f.allRecords.map CellRecord.corners := by
  rw [called_keywords fun r hr => (h.refinements r hr).called_corners,
    h.called_front (by decide), if_neg (by decide), List.nil_append, h.main.called_corners,
    allRecords, List.map_append, List.map_flatMap]

theorem called_dimens (h : f.Named) :
    called "DIMENS" f.keywords = f.dimens :: f.refinements.map fun r => r.dimens := by
  rw [called_keywords fun r hr => (h.refinements r hr).called_dimens,
    h.called_front (by decide), if_pos rfl, h.main.called_other _ (by decide), List.append_nil,
    ← List.map_eq_flatMap, List.singleton_append]

theorem called_lgr (h : f.Named) : called "LGR" f.keywords = f.refinements.map fun r => r.lgr := by
  rw [called_keywords fun r hr => (h.refinements r hr).called_lgr,
    h.called_front (by decide), if_neg (by decide), h.main.called_other _ (by decide),
    List.append_nil, ← List.map_eq_flatMap, List.nil_append]

theorem notMem_keywords (h : f.Named) (name : String)
    (hname : name ∉ ["COORDS", "CORNERS", "DIMENS", "LGR", "MAPAXES"]) :
    name ∉ names f.keywords := by
  simp only [List.mem_cons, List.not_mem_nil, or_false, not_or] at hname
  rw [notMem_names, called_keywords fun r hr =>
    (h.refinements r hr).called_other name (by simp [hname]), h.called_front hname.2.2.2.2,
    if_neg (Ne.symm hname.2.2.1), h.main.called_other name (by simp [hname])]
  simp

theorem notMem_front (h : f.Named) : "LGR" ∉ names f.front := by
  rw [notMem_names, h.called_front (by decide), if_neg (by decide),
    h.main.called_other _ (by decide)]
  rfl

theorem first?_axes (h : f.Named) : first? "MAPAXES" f.front = f.axes := by
  have hnone := h.main.called_other "MAPAXES" (by decide)
  rw [← head?_called, front, List.cons_append, called_cons, h.main.dimens, if_neg (by decide),
    called_append, hnone, List.append_nil]
  cases haxes : f.axes with
  | none => rfl
  | some k => simp [called, h.axes k haxes]

end RecordedFile.Named

theorem RecordedRefinement.Stores.named {recorded : RecordedRefinement} {r : Refinement}
    (h : recorded.Stores r) : recorded.Named :=
  ⟨h.lgr_named, h.grid.named⟩

theorem RecordedFile.Stores.named {f : RecordedFile} {b : Blueprint} (h : f.Stores b) :
    f.Named where
  main := h.main.named
  axes := h.axes_named
  refinements r hr := by
    obtain ⟨refinement, -, hstores⟩ := exists_of_mem h.refinements hr
    exact hstores.named

structure Refinement.Sized (r : Refinement) : Prop where
  fill : r.arrays.Fill r.dims
  activity : ∀ values, r.arrays.activity = some values → values.length = r.dims.count
  hosts : r.hosts.length = r.dims.count

structure Blueprint.Sized (b : Blueprint) : Prop where
  fill : b.arrays.Fill b.dims
  activity : ∀ values, b.arrays.activity = some values → values.length = b.dims.count
  refinements : ∀ r ∈ b.refinements, r.Sized

structure Blueprint.Numbered (b : Blueprint) : Prop where
  main : b.number = 0
  refinements : ∀ (i : Nat) r, b.refinements[i]? = some r → r.number = (i + 1 : Nat)

theorem Blueprint.numbered_of_range {b : Blueprint} (hmain : b.number = 0)
    (h : b.refinements.map Refinement.number =
      (List.range b.refinements.length).map fun i => ((i + 1 : Nat) : Int)) : b.Numbered where
  main := hmain
  refinements i r hi := by
    obtain ⟨hlt, rfl⟩ := List.getElem?_eq_some_iff.1 hi
    have hnumber := congrArg (·[i]?) h
    simpa [hlt] using hnumber

theorem map_getD_range {α : Type} (xs : List α) (x : α) :
    (List.range xs.length).map (xs.getD · x) = xs := by
  apply List.ext_getElem
  · rw [List.length_map, List.length_range]
  · intro i hi hlt
    rw [List.getElem_map, List.getElem_range, List.getD_eq_getElem _ _ hlt]

theorem Grid.Arrays.map_activityAt {arrays : Grid.Arrays} {size : Nat}
    (h : ∀ values, arrays.activity = some values → values.length = size) :
    (List.range size).map arrays.activityAt = arrays.activity.getD (List.replicate size 1) := by
  cases hactivity : arrays.activity with
  | none =>
    refine List.eq_replicate_iff.2 ⟨by rw [List.length_map, List.length_range], fun a ha => ?_⟩
    obtain ⟨g, -, rfl⟩ := List.mem_map.1 ha
    simp [activityAt, hactivity]
  | some values =>
    have hat : arrays.activityAt = (values.getD · 1) := by
      funext g
      simp [activityAt, hactivity]
    rw [← h values hactivity, hat, map_getD_range, Option.getD_some]

theorem CellTable.toGrid_eq {table : CellTable} {dims : Dims} {arrays : Grid.Arrays}
    {axes : Option MapAxes} (hword : dims.count < 2 ^ 64)
    (hsized : ∀ values, arrays.activity = some values → values.length = dims.count)
    (hcells : table.cells.toList =
      (List.range dims.count).map fun g => (arrays.cellAt dims g).map (Grid.onMap axes))
    (hactivity : table.activity.toList = (List.range dims.count).map arrays.activityAt)
    (name : String) (number : Int) :
    table.toGrid name number dims = Grid.described name number dims arrays axes := by
  rw [toGrid, hcells, hactivity, Grid.Arrays.map_activityAt hsized, Grid.described, Grid.ofCells,
    Grid.ofCells, Dims.size_eq hword, Option.getD_some]

namespace Forest

variable {file : KeywordFile} {stream : Bytes}

theorem recordedDims_eq {index : Nat} {k : Keyword} {dims : Dims} {rest : List Int}
    (hload : file.loadNamed stream "DIMENS" index = .ok k) (hpos : dims.Positive)
    (hvalues : k.integers = .ok (dims.values ++ rest)) :
    recordedDims file stream index = .ok dims := by
  obtain ⟨hx, hy, hz⟩ := hpos
  simp [recordedDims, hload, hvalues, Dims.values, hx, hy, hz]

theorem addRecorded_eq {recorded : RecordedRefinement} {r : Refinement} {index first total : Nat}
    (h : recorded.Stores r) (hsized : r.Sized) (hnumber : r.number = (index + 1 : Nat))
    (hdimens : file.loadNamed stream "DIMENS" (index + 1) = .ok recorded.dimens)
    (hlgr : file.loadNamed stream "LGR" index = .ok recorded.lgr)
    (hrecords : file.LoadsRecords stream first recorded.records)
    (htotal : first + r.dims.count ≤ total) (axes : Option MapAxes) (forest : Forest) :
    addRecorded file stream total axes forest first (index + 1) =
      (Blueprint.attach axes forest r >>= fun forest' => .ok (forest', first + r.dims.count)) := by
  obtain ⟨rest, hshape⟩ := h.grid.shape
  obtain ⟨order, horder, hcells⟩ := h.grid.cells
  have hword := hsized.fill.count_lt
  obtain ⟨table, hread, htable, hactivity, hhosts⟩ :=
    CellTable.read_eq hword hcells horder hrecords axes
  have hgrid := CellTable.toGrid_eq hword hsized.activity htable hactivity r.name (index + 1 : Nat)
  have hhosts : table.hosts.toList = r.hosts.map hostCell := by
    rw [hhosts r.hosts rfl, ← hsized.hosts, ← Function.comp_def hostCell, ← List.map_map,
      map_getD_range]
  rw [Option.isSome_some, Dims.size_eq hword] at hread
  simp only [addRecorded, recordedDims_eq hdimens h.grid.positive hshape, Nat.add_sub_cancel, hlgr,
    h.name, Dims.size_eq hword, if_pos htotal, hread, hhosts, ok_bind, pure_eq, Blueprint.attach,
    ← hgrid, hnumber]
  rcases h.parent with ⟨hcount, hparent⟩ | ⟨hcount, hparent⟩
  · rw [if_neg (Nat.not_lt.2 hcount), hparent]
  · rw [if_pos hcount, hparent, ok_bind]

theorem addAllRecorded_eq {recorded : List RecordedRefinement} {rs : List Refinement}
    (h : List.Forall₂ RecordedRefinement.Stores recorded rs) (hsized : ∀ r ∈ rs, r.Sized)
    {index first total : Nat}
    (hnumbers : ∀ (i : Nat) r, rs[i]? = some r → r.number = (index + i + 1 : Nat))
    (hkeywords : ∀ i r, recorded[i]? = some r →
      file.loadNamed stream "DIMENS" (index + i + 1) = .ok r.dimens ∧
        file.loadNamed stream "LGR" (index + i) = .ok r.lgr)
    (hrecords : file.LoadsRecords stream first (recorded.flatMap fun r => r.records))
    (htotal : first + (recorded.flatMap fun r => r.records).length ≤ total)
    (axes : Option MapAxes) (forest : Forest) :
    ((List.range' (index + 1) recorded.length).foldlM
        (fun (forest, first) index => addRecorded file stream total axes forest first index)
        (forest, first) >>= fun state => .ok state.1) =
      rs.foldlM (Blueprint.attach axes) forest := by
  induction h generalizing index first forest with
  | nil => rfl
  | @cons r₁ r recorded rs hr tail ih =>
    simp only [List.mem_cons, forall_eq_or_imp] at hsized
    obtain ⟨hdimens, hlgr⟩ := hkeywords 0 r₁ rfl
    rw [List.flatMap_cons] at hrecords htotal
    obtain ⟨hfront, hback⟩ := hrecords.append
    have hlength := hr.grid.length_records
    rw [List.length_append, hlength] at htotal
    rw [hlength] at hback
    have hnext : ∀ i r, recorded[i]? = some r →
        file.loadNamed stream "DIMENS" (index + 1 + i + 1) = .ok r.dimens ∧
          file.loadNamed stream "LGR" (index + 1 + i) = .ok r.lgr := by
      intro i r hi
      rw [Nat.add_assoc index, Nat.add_comm 1]
      exact hkeywords (i + 1) r hi
    have hnumbers' : ∀ (i : Nat) r, rs[i]? = some r → r.number = (index + 1 + i + 1 : Nat) := by
      intro i r hi
      rw [Nat.add_assoc index, Nat.add_comm 1]
      exact hnumbers (i + 1) r hi
    have hroom : first + r.dims.count ≤ total := by omega
    have hstep := addRecorded_eq hr hsized.1 (hnumbers 0 r rfl) hdimens hlgr hfront hroom axes
      forest
    simp only [List.length_cons, List.range'_succ, List.foldlM_cons, hstep]
    cases hattach : Blueprint.attach axes forest r with
    | error fault => rfl
    | ok forest' => exact ih hsized.2 hnumbers' hnext hback (by omega) forest'

theorem loadsRecords {f : RecordedFile} (hfile : file.Holds stream f.keywords) (hnamed : f.Named) :
    file.LoadsRecords stream 0 f.allRecords := by
  intro i r hi
  rw [Nat.zero_add]
  refine ⟨hfile.lists.loadFrom_eq ?_, hfile.lists.loadFrom_eq ?_⟩
  · rw [hnamed.called_coords, List.getElem?_map, hi, Option.map_some]
  · rw [hnamed.called_corners, List.getElem?_map, hi, Option.map_some]

theorem loads_refinement {f : RecordedFile} (hfile : file.Holds stream f.keywords)
    (hnamed : f.Named) {i : Nat} {r : RecordedRefinement} (hi : f.refinements[i]? = some r) :
    file.loadNamed stream "DIMENS" (i + 1) = .ok r.dimens ∧
      file.loadNamed stream "LGR" i = .ok r.lgr := by
  refine ⟨hfile.lists.loadFrom_eq ?_, hfile.lists.loadFrom_eq ?_⟩
  · rw [hnamed.called_dimens, List.getElem?_cons_succ, List.getElem?_map, hi, Option.map_some]
  · rw [hnamed.called_lgr, List.getElem?_map, hi, Option.map_some]

/-- A file of cell records is read as the grids that it records. -/
theorem ofRecords_eq {f : RecordedFile} {b : Blueprint} (hfile : file.Holds stream f.keywords)
    (h : f.Stores b) (hsized : b.Sized) (hnumbered : b.Numbered) (axes : Option MapAxes) :
    ofRecords file stream axes = b.forest axes := by
  have hnamed := h.named
  have hlists := hfile.lists
  have hrecords := loadsRecords hfile hnamed
  have hkeywords : ∀ i r, f.refinements[i]? = some r →
      file.loadNamed stream "DIMENS" (0 + i + 1) = .ok r.dimens ∧
        file.loadNamed stream "LGR" (0 + i) = .ok r.lgr := by
    intro i r hi
    rw [Nat.zero_add]
    exact loads_refinement hfile hnamed hi
  have hmain : file.loadNamed stream "DIMENS" 0 = .ok f.dimens := by
    refine hlists.loadFrom_eq ?_
    rw [hnamed.called_dimens]
    rfl
  obtain ⟨rest, hshape⟩ := h.main.shape
  obtain ⟨order, horder, hcells⟩ := h.main.cells
  have hlength := h.main.length_records
  obtain ⟨hfront, hback⟩ := hrecords.append
  rw [Nat.zero_add, hlength] at hback
  have hword := hsized.fill.count_lt
  obtain ⟨table, hread, htable, hactivity, -⟩ :=
    CellTable.read_eq hword hcells horder hfront axes
  have hgrid := CellTable.toGrid_eq hword hsized.activity htable hactivity mainName 0
  have hcoords : file.catalog.count "COORDS" = f.allRecords.length := by
    rw [hlists.count_eq, hnamed.called_coords, List.length_map]
  have hcorners : file.catalog.count "CORNERS" = f.allRecords.length := by
    rw [hlists.count_eq, hnamed.called_corners, List.length_map]
  have hdimens : file.catalog.count "DIMENS" = f.refinements.length + 1 := by
    rw [hlists.count_eq, hnamed.called_dimens, List.length_cons, List.length_map]
  have htotal : f.allRecords.length =
      b.dims.count + (f.refinements.flatMap fun r => r.records).length := by
    rw [RecordedFile.allRecords, List.length_append, hlength]
  have hmin : min f.allRecords.length b.dims.count = b.dims.count := by omega
  have hnumbers : ∀ (i : Nat) r, b.refinements[i]? = some r → r.number = (0 + i + 1 : Nat) := by
    intro i r hi
    rw [Nat.zero_add]
    exact hnumbered.refinements i r hi
  have hall := addAllRecorded_eq h.refinements hsized.refinements hnumbers hkeywords hback
    (Nat.le_of_eq htotal.symm) axes (ofMain (table.toGrid mainName 0 b.dims))
  rw [Option.isSome_none, Dims.size_eq hword] at hread
  simp only [ofRecords, hcoords, hcorners, ne_eq, not_true, if_false, hdimens, Nat.add_sub_cancel,
    recordedDims_eq hmain h.main.positive hshape, Dims.size_eq hword, hmin, hread, ok_bind, pure_eq]
  rw [Blueprint.forest, hnumbered.main, ← hgrid]
  exact hall

end Forest

end Reservoir
