import Reservoir.Proofs.Grid.ActiveCells
import Reservoir.Proofs.Grid.Loose
import Reservoir.Proofs.Grid.Rearranged

/-!
Which cells are active. The cells of a grid are active by the activity keyword of its section, or
by the records that it takes; and in every grid that is made, from keywords at hand or from a file
of either layout, just these cells are numbered.
-/

namespace Reservoir

open Outcome Keyword

def Grid.ActiveIn (stored : Option Keyword) (g : Nat) : Prop :=
  ∀ k, stored = some k → ∃ values v, k.integers = .ok values ∧ values[g]? = some v ∧ 0 < v

/-- A cell is active if the last of the records that tell of it tells so. A record without an
activity does. -/
def KeywordFile.ActiveByRecord (file : KeywordFile) (stream : Bytes) (dims : Dims)
    (records : List Nat) (g : Nat) : Prop :=
  ∃ before record after tail, records = before ++ record :: after ∧
    file.Addresses stream dims record g tail ∧ 0 < tail.getD 1 1 ∧
    ∀ later ∈ after, ∀ tail, ¬file.Addresses stream dims later g tail

/-- What a file stores makes a cell of a grid active: the record of the cell, or the activity
keyword of the section of the grid. -/
def Forest.StoredActive (forest : Forest) (file : KeywordFile) (stream : Bytes) (id : Nat)
    (dims : Dims) (g : Nat) : Prop :=
  if hasCellRecords file then
    file.ActiveByRecord stream dims (forest.recordsOf (file.catalog.count "COORDS") id) g
  else
    ∃ part stored, (file.catalog.head "LGR" :: file.catalog.blocks "LGR")[id]? = some part ∧
      file.loadOptional stream part "ACTNUM" = .ok stored ∧ Grid.ActiveIn stored g

namespace CellTable

variable {file : KeywordFile} {stream : Bytes} {dims : Dims} {refinement : Bool}
  {axes : Option MapAxes} {records : List Nat} {ts : List Telling} {g : Nat}

theorem activeByRecord_nil : ¬file.ActiveByRecord stream dims [] g := by
  rintro ⟨before, record, after, tail, hsplit, -⟩
  cases before <;> cases hsplit

theorem activeByRecord_cons {record : Nat} :
    file.ActiveByRecord stream dims (record :: records) g ↔
      file.ActiveByRecord stream dims records g ∨
        (∃ tail, file.Addresses stream dims record g tail ∧ 0 < tail.getD 1 1) ∧
          ∀ later ∈ records, ∀ tail, ¬file.Addresses stream dims later g tail := by
  constructor
  · rintro ⟨before, record', after, tail, hsplit, haddress, hpos, hlast⟩
    rcases List.cons_eq_append_iff.1 hsplit with ⟨rfl, hcons⟩ | ⟨front, rfl, hrecords⟩
    · cases hcons
      exact .inr ⟨⟨tail, haddress, hpos⟩, hlast⟩
    · exact .inl ⟨front, record', after, tail, hrecords, haddress, hpos, hlast⟩
  · rintro (⟨before, record', after, tail, rfl, hfound⟩ | ⟨⟨tail, haddress, hpos⟩, hlast⟩)
    · exact ⟨record :: before, record', after, tail, rfl, hfound⟩
    · exact ⟨[], record, records, tail, rfl, haddress, hpos, hlast⟩

/-- The last record that tells of a cell overrules the ones before it. -/
theorem positive_foldl_tell
    (hts : List.Forall₂ (Tells file stream dims refinement axes) records ts) {table : CellTable}
    (hg : g < table.activity.size) :
    (∃ v, (ts.foldl tell table).activity[g]? = some v ∧ 0 < v) ↔
      file.ActiveByRecord stream dims records g ∨
        (∃ v, table.activity[g]? = some v ∧ 0 < v) ∧
          ∀ record ∈ records, ∀ tail, ¬file.Addresses stream dims record g tail := by
  induction hts generalizing table with
  | nil => simp [activeByRecord_nil]
  | @cons record t records ts head hrest ih =>
    obtain ⟨tail, haddress, -, hactivity, -⟩ := head.coords
    have hsize : g < (table.tell t).activity.size := by
      rwa [tell, Array.size_setIfInBounds]
    rw [List.foldl_cons, ih hsize, activeByRecord_cons, or_assoc]
    refine or_congr_right ?_
    simp only [tell, Array.getElem?_setIfInBounds, List.forall_mem_cons]
    by_cases hcell : t.cell = g
    · subst hcell
      have hfound : (∃ tail, file.Addresses stream dims record t.cell tail ∧ 0 < tail.getD 1 1) ↔
          0 < t.activity := by
        rw [hactivity]
        refine ⟨?_, fun hpos => ⟨tail, haddress, hpos⟩⟩
        rintro ⟨tail', haddress', hpos⟩
        rwa [(unique_of_addresses haddress haddress').2]
      have hnone : ¬∀ tail, ¬file.Addresses stream dims record t.cell tail :=
        fun hnone => hnone tail haddress
      rw [hfound]
      simp [hnone, hg]
    · have hnone : ∀ tail, ¬file.Addresses stream dims record g tail :=
        fun tail' haddress' => hcell (unique_of_addresses haddress haddress').1
      simp [hnone, hcell]

end CellTable

namespace Grid

variable {dims : Dims} {pillars depths : Keyword} {stored axes : Option Keyword} {arrays : Arrays}

def Marks (stored : Option Keyword) (activity : Array Int) : Prop :=
  ∀ g v, activity[g]? = some v → (ActiveIn stored g ↔ 0 < v)

theorem checkActivity_eq_ok {size : Nat} (hsize : size * 4 < 2 ^ 64)
    {activity : Option (List Int)} (h : checkActivity size stored = .ok activity) :
    (stored = none ∧ activity = none) ∨
      ∃ k values, stored = some k ∧ k.integers = .ok values ∧ values.length = size ∧
        activity = some values := by
  cases stored with
  | none => exact .inl ⟨rfl, (Except.ok.inj h).symm⟩
  | some k =>
    obtain ⟨⟨⟩, hcount, h⟩ := bind_eq_ok.1 h
    obtain ⟨values, hvalues, h⟩ := bind_eq_ok.1 h
    cases h
    obtain rfl := checkCount_eq_ok.1 hcount
    have hwhole : k.Whole := whole_of_lt (by rw [type_of_integers hvalues]; exact hsize)
    exact .inr ⟨k, values, rfl, hvalues, length_integers hwhole hvalues, rfl⟩

theorem indexed_ofArrays (harrays : arraysOf dims pillars depths stored = .ok arrays)
    {name : String} {number : Int} {axes : Option MapAxes} {grid : Grid}
    (h : ofArrays name number dims arrays axes = .ok grid) :
    grid.Indexed ∧ Marks stored grid.activity := by
  have hdepths := depthCount_lt_of_ofArrays harrays h
  obtain ⟨-, -, hactivity⟩ := counts_of_arraysOf harrays
  obtain ⟨cells, -, rfl, -⟩ := ofArrays_eq_ok h
  have hsize : dims.size * 4 < 2 ^ 64 := by
    rw [dims.depthCount_eq] at hdepths
    have hle : dims.size ≤ dims.count := wrap_le _
    omega
  rcases checkActivity_eq_ok hsize hactivity with
    ⟨rfl, hnone⟩ | ⟨k, values, rfl, hvalues, hlength, hsome⟩
  · refine ⟨indexed_ofCells _ _ _ fun values hvalues => (by rw [hnone] at hvalues; cases hvalues),
      fun g v hv => iff_of_true (fun k hk => by cases hk) ?_⟩
    rw [ofCells, hnone, Option.getD_none, List.getElem?_toArray] at hv
    rw [List.eq_of_mem_replicate (List.mem_of_getElem? hv)]
    exact Int.one_pos
  · refine ⟨indexed_ofCells _ _ _ fun values' hvalues' => ?_, fun g v hv => ?_⟩
    · rw [hsome] at hvalues'
      exact Option.some.inj hvalues' ▸ hlength
    · rw [ofCells, hsome, Option.getD_some, List.getElem?_toArray] at hv
      constructor
      · intro hg
        obtain ⟨values', v', hvalues', hv', hpos⟩ := hg k rfl
        obtain rfl := Except.ok.inj (hvalues.symm.trans hvalues')
        exact Option.some.inj (hv'.symm.trans hv) ▸ hpos
      · rintro hpos k' ⟨⟩
        exact ⟨values, v, hvalues, hv, hpos⟩

end Grid

namespace Forest

variable {file : KeywordFile} {stream : Bytes} {axes : Option MapAxes} {forest forest' : Forest}

def SectionMarks (file : KeywordFile) (stream : Bytes) (part : Catalog) (activity : Array Int) :
    Prop :=
  ∃ stored, file.loadOptional stream part "ACTNUM" = .ok stored ∧ Grid.Marks stored activity

theorem Installed.indexed {r : Request} {p : Nat} {parent : Grid} {cells : List Nat}
    (h : forest.Installed r p parent cells forest') (hall : ∀ grid ∈ forest.grids, grid.Indexed)
    (hnew : r.grid.Indexed) : ∀ grid ∈ forest'.grids, grid.Indexed :=
  h.forall_grids (fun _ hgrid => ⟨hgrid.1, hgrid.2, hgrid.3⟩) ⟨hnew.1, hnew.2, hnew.3⟩ hall

theorem sectionGrid_indexed {part : Catalog} {name : String} {number : Int} {grid : Grid}
    (h : sectionGrid file stream part name number axes = .ok grid) :
    grid.Indexed ∧ SectionMarks file stream part grid.activity := by
  obtain ⟨dims, declared, arrays, -, ⟨pillars, depths, stored, hstored, harrays⟩, hmade⟩ :=
    sectionGrid_eq_ok h
  obtain ⟨hindexed, hmarks⟩ := Grid.indexed_ofArrays harrays hmade
  exact ⟨hindexed, stored, hstored, hmarks⟩

structure Sectioned (file : KeywordFile) (stream : Bytes) (parts : List Catalog) (forest : Forest) :
    Prop where
  indexed : ∀ grid ∈ forest.grids, grid.Indexed
  marks : List.Forall₂ (SectionMarks file stream) parts (forest.grids.map Grid.activity)

theorem Sectioned.addSection {parts : List Catalog} {part : Catalog} {index : Nat}
    (h : Sectioned file stream parts forest)
    (hstep : addSection file stream axes forest part index = .ok forest') :
    Sectioned file stream (parts ++ [part]) forest' := by
  obtain ⟨name, parent, grid, hosts, -, hgrid, -, hinstall⟩ := addSection_eq_ok hstep
  obtain ⟨hindexed, hmarks⟩ := sectionGrid_indexed hgrid
  obtain ⟨p, parentGrid, cells, hi⟩ :=
    @installed_of_install forest forest' ⟨grid, hosts, parent⟩ hinstall
  refine ⟨hi.indexed h.indexed hindexed, ?_⟩
  rw [hi.map_grids (f := Grid.activity) fun _ => rfl]
  exact List.rel_append h.marks (.cons hmarks .nil)

theorem sectioned_ofSections (h : ofSections file stream axes = .ok forest) :
    Sectioned file stream (file.catalog.head "LGR" :: file.catalog.blocks "LGR") forest := by
  obtain ⟨main, hmain, hall⟩ := bind_eq_ok.1 h
  obtain ⟨hindexed, hmarks⟩ := sectionGrid_indexed hmain
  have hstart : Sectioned file stream
      (file.catalog.head "LGR" :: ([] : List (Catalog × Nat)).map Prod.fst) (ofMain main) :=
    ⟨fun grid hgrid => List.mem_singleton.1 hgrid ▸ hindexed, .cons hmarks .nil⟩
  have hlast := foldlM_invariant_related
    (P := fun (seen : List (Catalog × Nat)) forest =>
      Sectioned file stream (file.catalog.head "LGR" :: seen.map Prod.fst) forest)
    (fun seen a c b b' hsame hb hstep => by
      obtain rfl : a = c := hsame
      rw [List.map_append, ← List.cons_append]
      exact hb.addSection hstep)
    (List.forall₂_same.2 fun _ _ => rfl) hstart hall
  rwa [List.nil_append, List.zipIdx_map_fst] at hlast

theorem Sectioned.exists_part {parts : List Catalog} (h : Sectioned file stream parts forest)
    {id : Nat} {grid : Grid} (hgrid : forest.grid? id = some grid) :
    ∃ part, parts[id]? = some part ∧ SectionMarks file stream part grid.activity := by
  have hactivity : (forest.grids.map Grid.activity)[id]? = some grid.activity := by
    rw [List.getElem?_map, ← grid?, hgrid, Option.map_some]
  exact exists_of_getElem? h.marks hactivity

theorem indexed_ofRecords (h : ofRecords file stream axes = .ok forest) :
    ∀ grid ∈ forest.grids, grid.Indexed := by
  obtain ⟨-, dims, table, next, -, htable, hall⟩ := ofRecords_eq_ok.1 h
  have htables : ∀ {dims first count refinement table} (name : String) (number : Int),
      CellTable.read file stream dims first count refinement axes = .ok table →
        (table.toGrid name number dims).Indexed := by
    intro dims first count refinement table name number hread
    obtain ⟨ts, -, rfl⟩ := (CellTable.read_eq_ok ..).1 hread
    refine Grid.indexed_ofCells _ _ _ fun values hvalues => ?_
    rw [← Option.some.inj hvalues, Array.length_toList, (CellTable.size_foldl_tell ..).2.1,
      CellTable.empty, Array.size_replicate]
  have hstart : ∀ grid ∈ (ofMain (table.toGrid mainName 0 dims)).grids, grid.Indexed :=
    fun grid hgrid => List.mem_singleton.1 hgrid ▸ htables mainName 0 htable
  refine foldlM_invariant (P := fun state : Forest × Nat => ∀ grid ∈ state.1.grids, grid.Indexed)
    (fun before index after hbefore hstep => ?_) hstart hall
  obtain ⟨dims, names, table, -, -, -, htable, hinstall, -⟩ := addRecorded_eq_ok.1 hstep
  obtain ⟨p, parent, cells, hi⟩ := @installed_of_install before.1 after.1
    ⟨table.toGrid names.1 index dims, table.hosts.toList, names.2⟩ hinstall
  exact hi.indexed hbefore (htables names.1 index htable)

theorem Tabled.marks {refinement : Bool} {first count : Nat} {grid : Grid}
    (h : Tabled file stream axes refinement first count grid) {g : Nat} {v : Int}
    (hv : grid.activity[g]? = some v) :
    file.ActiveByRecord stream grid.dims (List.range' first count) g ↔ 0 < v := by
  obtain ⟨table, hread, -, hactivity, -⟩ := h
  obtain ⟨ts, hts, rfl⟩ := (CellTable.read_eq_ok ..).1 hread
  have hg : g < (CellTable.empty grid.dims.size).activity.size := by
    rw [← (CellTable.size_foldl_tell ts _).2.1, ← hactivity]
    exact (Array.getElem?_eq_some_iff.1 hv).1
  have htold := CellTable.positive_foldl_tell hts hg
  -- Of no cell is it told before the first record that it is active.
  have hempty : ¬∃ v, (CellTable.empty grid.dims.size).activity[g]? = some v ∧ 0 < v := by
    rintro ⟨v, hv, hpos⟩
    rw [CellTable.empty, Array.getElem?_replicate] at hv
    split at hv
    · cases hv
      exact Int.lt_irrefl 0 hpos
    · cases hv
  rw [← hactivity, hv] at htold
  simpa [hempty] using htold.symm

theorem indexed_of_build {applyAxes : Bool} (h : build file stream applyAxes = .ok forest)
    {id : Nat} {grid : Grid} (hgrid : forest.grid? id = some grid) :
    grid.Indexed ∧ ∀ g v, grid.activity[g]? = some v →
      (forest.StoredActive file stream id grid.dims g ↔ 0 < v) := by
  obtain ⟨axes, grids, flag, connections, -, hgrids, -, -, hforest⟩ := build_eq_ok_iff.1 h
  have hmem : grid ∈ grids.grids := by
    rw [hforest] at hgrid
    exact List.mem_of_getElem? hgrid
  cases hkind : hasCellRecords file with
  | true =>
    obtain ⟨next, hattributed⟩ := attributed_of_build hkind h
    rw [gridsOf, if_pos hkind] at hgrids
    refine ⟨indexed_ofRecords hgrids grid hmem, fun g v hv => ?_⟩
    rw [StoredActive, if_pos hkind]
    exact (hattributed.tabled hgrid).marks hv
  | false =>
    rw [gridsOf, if_neg (Bool.eq_false_iff.1 hkind)] at hgrids
    have hsections := sectioned_ofSections hgrids
    refine ⟨hsections.indexed grid hmem, fun g v hv => ?_⟩
    have hold : grids.grid? id = some grid := by
      rw [hforest] at hgrid
      exact hgrid
    obtain ⟨part, hpart, stored, hstored, hmarks⟩ := hsections.exists_part hold
    rw [StoredActive, hkind, if_neg Bool.false_ne_true, hpart, ← hmarks g v hv]
    constructor
    · rintro ⟨part', stored', hpart', hstored', hg⟩
      obtain rfl := Option.some.inj hpart'
      rwa [Except.ok.inj (hstored.symm.trans hstored')]
    · exact fun hg => ⟨part, stored, rfl, hstored, hg⟩

/-- The active cells are numbered in every grid that is made, from keywords or from a file. -/
theorem numbers_of_construction :
    (∀ dims pillars depths activity axes forest,
      ofKeywords dims pillars depths activity axes = .ok forest →
        forest.main.Numbers (Grid.ActiveIn activity)) ∧
    ∀ file stream applyAxes forest, build file stream applyAxes = .ok forest →
      ∀ id grid, forest.grid? id = some grid →
        grid.Numbers (forest.StoredActive file stream id grid.dims) := by
  refine ⟨fun dims pillars depths activity axes forest hforest => ?_,
    fun file stream applyAxes forest hforest id grid hgrid => ?_⟩
  · obtain ⟨-, arrays, harrays, found, -, main, hmain, rfl⟩ := ofKeywords_eq_ok.1 hforest
    obtain ⟨hindexed, hmarks⟩ := Grid.indexed_ofArrays harrays hmain
    exact hindexed.numbers hmarks
  · obtain ⟨hindexed, hmarks⟩ := indexed_of_build hforest hgrid
    exact hindexed.numbers hmarks

/-- Four cells of the activities -3, 0, 2 and 1, from keywords, from a file of these and from a file
of records. -/
theorem numbers_of_construction_mixed :
    let arrays := Grid.Arrays.counting ⟨2, 2, 1⟩ (some [-3, 0, 2, 1])
    let g := LooseGrid.ofArrays ⟨2, 2, 1⟩ arrays none
    let f : RecordedFile := {
      toRecordedGrid := .ofCells ⟨2, 2, 1⟩ arrays none [2, 0, 3, 1]
      axes := none
      refinements := [] }
    (∃ forest, ofKeywords g.dims g.pillars g.depths g.activity g.axes = .ok forest ∧
      forest.main.activeCells = #[2, 3] ∧ forest.main.Numbers (Grid.ActiveIn g.activity)) ∧
    ∀ ks ∈ [g.keywords, f.keywords], ∃ file stream forest, file.Holds stream ks ∧
      build file stream false = .ok forest ∧ forest.main.activeCells = #[2, 3] ∧
        forest.main.Numbers (forest.StoredActive file stream 0 forest.main.dims) := by
  intro arrays g f
  let b : Blueprint := ⟨0, ⟨2, 2, 1⟩, arrays, []⟩
  have hb : b.Writable := ⟨Grid.writable_counting (by decide), List.forall_mem_nil _⟩
  have harrays : Grid.arraysOf g.dims g.pillars g.depths g.activity = .ok arrays :=
    Grid.arraysOf_words hb.main
  have hnamed : g.Named := LooseGrid.named_ofArrays _ _ (by rintro k ⟨⟩)
  have hfits : g.Fits := {
    positive := by decide
    nx_le := by decide
    ny_le := by decide
    nz_le := by decide
    count_le := by decide }
  have hstores : f.Stores b := {
    main := RecordedGrid.stores_ofCells hb.main (by rintro cells ⟨⟩) (by decide)
    axes_named := by rintro k ⟨⟩
    refinements := .nil }
  have hcounts : ∀ k ∈ f.keywords, k.count ≤ wordLimit := fun k =>
    RecordedFile.count_le RecordedGrid.counted_ofCells (by rintro k ⟨⟩) (List.forall_mem_nil _)
  have hforest := ofKeywords_eq_ok.2
    ⟨hfits.positive, _, harrays, none, show axesOf g.axes = .ok none from rfl, _,
      Grid.ofArrays_eq hb.main.fill mainName 0 none, rfl⟩
  refine ⟨⟨_, hforest, rfl, numbers_of_construction.1 _ _ _ _ _ _ hforest⟩,
    List.forall_mem_cons.2 ⟨?_, List.forall_mem_singleton.2 ?_⟩⟩
  · obtain ⟨file, stream, hfile⟩ := KeywordFile.exists_holds .little
      fun k hk => hfits.count_le_of_perm (.refl _) hk
    have hbuild := build_loose hfile hnamed hfits (.refl _) false
    have hmade : Grid.ofArrays mainName 0 g.dims arrays none = _ :=
      Grid.ofArrays_eq hb.main.fill mainName 0 none
    simp only [show axesOf g.axes = .ok none from rfl, harrays, ok_bind, ite_self, hmade] at hbuild
    exact ⟨file, stream, _, hfile, hbuild, rfl, numbers_of_construction.2 _ _ _ _ hbuild 0 _ rfl⟩
  · obtain ⟨file, stream, hfile⟩ := KeywordFile.exists_holds .big hcounts
    have hbuild := build_records_eq hfile hstores hb.sized (Blueprint.numbered_of_range rfl rfl)
      false
    exact ⟨file, stream, _, hfile, hbuild, rfl, numbers_of_construction.2 _ _ _ _ hbuild 0 _ rfl⟩

end Forest

end Reservoir
