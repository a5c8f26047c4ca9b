import Reservoir.Grid.Build
import Reservoir.Proofs.Grid.CornerPoints
import Reservoir.Proofs.Grid.Linked

/-!
How the forest of a file comes about. It starts from a main grid alone, and every refinement that
is read is installed in it; so the links agree in every forest that is built, and of the main grid
nothing changes but which cells are refined and what its children are.
-/

namespace Reservoir

open Outcome

namespace Forest

/-- A forest that comes from a main grid through accepted refinements. -/
structure Grown (main : Grid) (forest : Forest) : Prop where
  linked : ∃ log, forest.Linked log
  main_eq : ∃ owners children, forest.main = { main with refinedBy := owners, children := children }

namespace Grown

variable {main grid : Grid} {forest forest' : Forest}

theorem start (hfresh : main.Fresh) (hroot : main.parent = none) : Grown main (ofMain main) where
  linked := ⟨[], linked_ofMain hfresh hroot⟩
  main_eq := ⟨main.refinedBy, main.children, rfl⟩

theorem install (h : Grown main forest) (hfresh : grid.Fresh) {hosts : List (Option Nat)}
    {parent : String} (hinstall : forest.install grid hosts parent = .ok forest') :
    Grown main forest' := by
  obtain ⟨log, hlinked⟩ := h.linked
  obtain ⟨p, parentGrid, cells, hi⟩ :=
    @installed_of_install forest forest' ⟨grid, hosts, parent⟩ hinstall
  refine ⟨⟨_, hlinked.install hfresh hi⟩, ?_⟩
  obtain ⟨owners, children, hmain⟩ := h.main_eq
  have hgrid := hi.grid?_eq 0
  rw [if_neg (Nat.zero_ne_add_one _)] at hgrid
  have hmain' : forest'.main =
      if 0 = p then cover (forest.refinements.length + 1) cells forest.main else forest.main :=
    Option.some.inj hgrid
  rw [hmain', hmain]
  split
  · exact ⟨_, _, rfl⟩
  · exact ⟨owners, children, rfl⟩

theorem number_eq (h : Grown main forest) : forest.main.number = main.number := by
  obtain ⟨owners, children, hmain⟩ := h.main_eq
  rw [hmain]

theorem with_connections (h : Grown main forest) (axes : Option MapAxes)
    (connections : List Connection) :
    Grown main { forest with mapAxes := axes, connections := connections } := by
  obtain ⟨log, hlinked⟩ := h.linked
  exact ⟨⟨log, { hlinked with }⟩, h.main_eq⟩

end Grown

variable {file : KeywordFile} {stream : Bytes} {axes : Option MapAxes} {forest forest' : Forest}

theorem sectionGrid_eq_ok {part : Catalog} {name : String} {number : Int} {grid : Grid}
    (h : sectionGrid file stream part name number axes = .ok grid) :
    ∃ dims declared arrays, sectionDims file stream part = .ok (dims, declared) ∧
      (∃ pillars depths activity, file.loadOptional stream part "ACTNUM" = .ok activity ∧
        Grid.arraysOf dims pillars depths activity = .ok arrays) ∧
      Grid.ofArrays name ((declared.filter (0 < ·)).getD number) dims arrays axes = .ok grid := by
  obtain ⟨⟨dims, declared⟩, hdims, h⟩ := bind_eq_ok.1 h
  obtain ⟨pillars, -, h⟩ := bind_eq_ok.1 h
  obtain ⟨depths, -, h⟩ := bind_eq_ok.1 h
  obtain ⟨activity, hactivity, h⟩ := bind_eq_ok.1 h
  obtain ⟨arrays, harrays, h⟩ := bind_eq_ok.1 h
  exact ⟨dims, declared, arrays, hdims, ⟨pillars, depths, activity, hactivity, harrays⟩, h⟩

def NamedBy (lgr : Outcome Keyword) (name : String) : Prop :=
  ∃ k, lgr = .ok k ∧ k.getString 0 = .ok name

def HostedBy (stored : Outcome Keyword) (grid : Grid) (hosts : List (Option Nat)) : Prop :=
  ∃ k values, stored = .ok k ∧ Grid.checkCount k grid.size = .ok () ∧ k.integers = .ok values ∧
    hosts = values.map hostCell

theorem addSection_eq_ok {part : Catalog} {index : Nat}
    (h : addSection file stream axes forest part index = .ok forest') :
    ∃ name parent grid hosts, NamedBy (file.loadFrom stream part "LGR" 0) name ∧
      sectionGrid file stream part name (index + 1) axes = .ok grid ∧
      HostedBy (file.loadFrom stream part "HOSTNUM" 0) grid hosts ∧
      forest.install grid hosts parent = .ok forest' := by
  obtain ⟨lgr, hlgr, h⟩ := bind_eq_ok.1 h
  obtain ⟨name, hname, h⟩ := bind_eq_ok.1 h
  obtain ⟨parent, -, h⟩ := bind_eq_ok.1 h
  obtain ⟨grid, hgrid, h⟩ := bind_eq_ok.1 h
  obtain ⟨stored, hstored, h⟩ := bind_eq_ok.1 h
  obtain ⟨⟨⟩, hcount, h⟩ := bind_eq_ok.1 h
  obtain ⟨values, hvalues, h⟩ := bind_eq_ok.1 h
  exact ⟨name, parent, grid, _, ⟨lgr, hlgr, hname⟩, hgrid,
    ⟨stored, values, hstored, hcount, hvalues, rfl⟩, h⟩

theorem Grown.addSection {main : Grid} {part : Catalog} {index : Nat} (hgrown : Grown main forest)
    (h : addSection file stream axes forest part index = .ok forest') : Grown main forest' := by
  obtain ⟨name, parent, grid, hosts, -, hgrid, -, hinstall⟩ := addSection_eq_ok h
  obtain ⟨dims, declared, arrays, -, -, hmade⟩ := sectionGrid_eq_ok hgrid
  exact hgrown.install (Grid.fresh_ofArrays hmade) hinstall

theorem grown_ofSections (h : ofSections file stream axes = .ok forest) :
    ∃ main, sectionGrid file stream (file.catalog.head "LGR") mainName 0 axes = .ok main ∧
      Grown main forest := by
  obtain ⟨main, hmain, h⟩ := bind_eq_ok.1 h
  obtain ⟨dims, declared, arrays, -, -, hmade⟩ := sectionGrid_eq_ok hmain
  exact ⟨_, hmain, foldlM_invariant (fun _ _ _ hgrown => hgrown.addSection)
    (.start (Grid.fresh_ofArrays hmade) (Grid.parent_ofArrays hmade)) h⟩

def recordedNames (file : KeywordFile) (stream : Bytes) (index : Nat) :
    Outcome (String × String) := do
  let lgr ← file.loadNamed stream "LGR" (index - 1)
  let name ← lgr.getString 0
  let parent ← if 1 < lgr.count then lgr.getString 1 else pure ""
  return (name, parent)

theorem addRecorded_bind (records : Nat) (forest : Forest) (first index : Nat) :
    addRecorded file stream records axes forest first index =
      (recordedDims file stream index >>= fun dims =>
        recordedNames file stream index >>= fun names =>
          if first + dims.size ≤ records then
            CellTable.read file stream dims first dims.size true axes >>= fun table =>
              forest.install (table.toGrid names.1 index dims) table.hosts.toList names.2 >>=
                fun forest => .ok (forest, first + dims.size)
          else if records < wrap (first + dims.size) then
            reject (.tooFewCellRecords names.1 first (wrap (first + dims.size)) records)
          else .error .crash) := by
  simp only [addRecorded, recordedNames]
  cases recordedDims file stream index with
  | error fault => rfl
  | ok dims =>
    simp only [ok_bind]
    cases file.loadNamed stream "LGR" (index - 1) with
    | error fault => rfl
    | ok lgr =>
      simp only [ok_bind]
      cases lgr.getString 0 with
      | error fault => rfl
      | ok name =>
        by_cases hcount : 1 < lgr.count
        · simp only [if_pos hcount, ok_bind]
          cases lgr.getString 1 <;> rfl
        · simp only [if_neg hcount]
          rfl

theorem addRecorded_eq_ok {records first index next : Nat} :
    addRecorded file stream records axes forest first index = .ok (forest', next) ↔
      ∃ dims names table, recordedDims file stream index = .ok dims ∧
        recordedNames file stream index = .ok names ∧ first + dims.size ≤ records ∧
        CellTable.read file stream dims first dims.size true axes = .ok table ∧
        forest.install (table.toGrid names.1 index dims) table.hosts.toList names.2 = .ok forest' ∧
        next = first + dims.size := by
  rw [addRecorded_bind, bind_eq_ok]
  refine exists_congr fun dims => ?_
  simp only [bind_eq_ok]
  constructor
  · rintro ⟨hdims, names, hnames, h⟩
    split at h
    · next hroom =>
      obtain ⟨table, htable, h⟩ := bind_eq_ok.1 h
      obtain ⟨installed, hinstall, h⟩ := bind_eq_ok.1 h
      cases h
      exact ⟨names, table, hdims, hnames, hroom, htable, hinstall, rfl⟩
    · split at h <;> cases h
  · rintro ⟨names, table, hdims, hnames, hroom, htable, hinstall, rfl⟩
    refine ⟨hdims, names, hnames, ?_⟩
    rw [if_pos hroom, htable, ok_bind, hinstall, ok_bind]

def addAllRecorded (file : KeywordFile) (stream : Bytes) (axes : Option MapAxes)
    (state : Forest × Nat) : Outcome (Forest × Nat) :=
  (List.range' 1 (file.catalog.count "DIMENS" - 1)).foldlM (fun (forest, first) index =>
    addRecorded file stream (file.catalog.count "COORDS") axes forest first index) state

theorem ofRecords_eq_ok : ofRecords file stream axes = .ok forest ↔
    file.catalog.count "CORNERS" = file.catalog.count "COORDS" ∧
      ∃ dims table next, recordedDims file stream 0 = .ok dims ∧
        CellTable.read file stream dims 0 (min (file.catalog.count "COORDS") dims.size) false axes =
          .ok table ∧
        addAllRecorded file stream axes (ofMain (table.toGrid mainName 0 dims), dims.size) =
          .ok (forest, next) := by
  simp only [ofRecords]
  split
  · next hcount => simp [hcount]
  · next hcount =>
    simp only [bind_eq_ok, not_not.1 hcount, true_and]
    refine exists_congr fun dims => ?_
    constructor
    · rintro ⟨hdims, table, htable, ⟨last, next⟩, hlast, h⟩
      cases h
      exact ⟨table, next, hdims, htable, hlast⟩
    · rintro ⟨table, next, hdims, htable, hlast⟩
      exact ⟨hdims, table, htable, (forest, next), hlast, rfl⟩

theorem Grown.addRecorded {main : Grid} {records first next index : Nat}
    (hgrown : Grown main forest)
    (h : addRecorded file stream records axes forest first index = .ok (forest', next)) :
    Grown main forest' := by
  obtain ⟨dims, names, table, -, -, -, -, hinstall, -⟩ := addRecorded_eq_ok.1 h
  exact hgrown.install (Grid.fresh_ofCells ..) hinstall

theorem Grown.addAllRecorded {main : Grid} {state last : Forest × Nat}
    (hgrown : Grown main state.1) (hall : addAllRecorded file stream axes state = .ok last) :
    Grown main last.1 :=
  foldlM_invariant (P := fun state : Forest × Nat => Grown main state.1)
    (fun _ _ _ hstate => hstate.addRecorded) hgrown hall

theorem grown_ofRecords (h : ofRecords file stream axes = .ok forest) :
    ∃ (table : CellTable) (dims : Dims), Grown (table.toGrid mainName 0 dims) forest := by
  obtain ⟨-, dims, table, next, -, -, hall⟩ := ofRecords_eq_ok.1 h
  have hstart : Grown (table.toGrid mainName 0 dims) (ofMain (table.toGrid mainName 0 dims)) :=
    .start (Grid.fresh_ofCells ..) rfl
  exact ⟨table, dims, hstart.addAllRecorded hall⟩

def gridsOf (file : KeywordFile) (stream : Bytes) (axes : Option MapAxes) : Outcome Forest :=
  if hasCellRecords file then ofRecords file stream axes else ofSections file stream axes

theorem build_bind (applyAxes : Bool) : build file stream applyAxes =
    (file.loadOptional stream (file.catalog.head "LGR") "MAPAXES" >>= axesOf >>= fun axes =>
      gridsOf file stream (if applyAxes then axes else none) >>= fun grids =>
        isDualPorosity file stream >>= fun flag =>
          Connection.readAll file stream grids.sizes flag >>= fun connections =>
            .ok { grids with mapAxes := axes, connections := connections }) := by
  simp only [build, gridsOf, pure_eq]
  cases file.loadOptional stream (file.catalog.head "LGR") "MAPAXES" with
  | error fault => rfl
  | ok stored =>
    simp only [ok_bind]
    split <;> rfl

/-- A forest is built from the map axes, the grids, the flag and the connections of the file. -/
theorem build_eq_ok_iff {applyAxes : Bool} : build file stream applyAxes = .ok forest ↔
    ∃ axes grids flag connections,
      (file.loadOptional stream (file.catalog.head "LGR") "MAPAXES" >>= axesOf) = .ok axes ∧
      gridsOf file stream (if applyAxes then axes else none) = .ok grids ∧
      isDualPorosity file stream = .ok flag ∧
      Connection.readAll file stream grids.sizes flag = .ok connections ∧
      forest = { grids with mapAxes := axes, connections := connections } := by
  rw [build_bind, bind_eq_ok]
  simp only [bind_eq_ok, Except.ok.injEq]
  constructor
  · rintro ⟨axes, haxes, grids, hgrids, flag, hflag, connections, hconnections, rfl⟩
    exact ⟨axes, grids, flag, connections, haxes, hgrids, hflag, hconnections, rfl⟩
  · rintro ⟨axes, grids, flag, connections, haxes, hgrids, hflag, hconnections, rfl⟩
    exact ⟨axes, haxes, grids, hgrids, flag, hflag, connections, hconnections, rfl⟩

theorem build_eq_ok {applyAxes : Bool} (h : build file stream applyAxes = .ok forest) :
    ∃ axes grids flag, gridsOf file stream axes = .ok grids ∧
      isDualPorosity file stream = .ok flag ∧
      Connection.readAll file stream grids.sizes flag = .ok forest.connections ∧
      forest = { grids with mapAxes := forest.mapAxes, connections := forest.connections } := by
  obtain ⟨axes, grids, flag, connections, -, hgrids, hflag, hconnections, rfl⟩ :=
    build_eq_ok_iff.1 h
  exact ⟨_, grids, flag, hgrids, hflag, hconnections, rfl⟩

/-- The main section of a file declares no number of its own. -/
def MainUnnumbered (file : KeywordFile) (stream : Bytes) : Prop :=
  hasCellRecords file = true ∨ ∀ dims declared,
    sectionDims file stream (file.catalog.head "LGR") = .ok (dims, some declared) → declared ≤ 0

/-- The links agree in every forest that is built, and only a declared number makes the number of
its main grid another one than 0. -/
theorem grown_of_build {applyAxes : Bool} (h : build file stream applyAxes = .ok forest) :
    ∃ main, Grown main forest ∧ (MainUnnumbered file stream → main.number = 0) := by
  obtain ⟨axes, grids, flag, hgrids, -, -, hforest⟩ := build_eq_ok h
  rw [hforest]
  unfold gridsOf at hgrids
  split at hgrids
  · obtain ⟨table, dims, hgrown⟩ := grown_ofRecords hgrids
    exact ⟨_, hgrown.with_connections .., fun _ => rfl⟩
  · next hlayout =>
    obtain ⟨main, hmain, hgrown⟩ := grown_ofSections hgrids
    obtain ⟨dims, declared, arrays, hdims, -, hmade⟩ := sectionGrid_eq_ok hmain
    obtain ⟨cells, -, rfl, -⟩ := Grid.ofArrays_eq_ok hmade
    refine ⟨_, hgrown.with_connections .., fun hunnumbered => ?_⟩
    rcases hunnumbered with hrecords | hdeclared
    · exact absurd hrecords hlayout
    · cases declared with
      | none => rfl
      | some number =>
        have hnumber := hdeclared dims number hdims
        have hfilter : (some number).filter (fun n => decide (0 < n)) = none := by
          rw [Option.filter_some, if_neg (by simpa using hnumber)]
        rw [hfilter]
        rfl

end Forest

end Reservoir
