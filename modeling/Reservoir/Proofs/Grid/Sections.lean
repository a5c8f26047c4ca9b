import Reservoir.Proofs.Grid.CornerPoints
import Reservoir.Proofs.Keyword.Contents
import Reservoir.Proofs.Stream.Holding
import Reservoir.Grid.Build

/-!
Grids from pillars and depths. A file whose sections store the grids of a blueprint is read as
these grids put together, one refinement after the other.
-/

namespace Reservoir

open Outcome

def Dims.values (d : Dims) : List Int := [(d.nx : Int), (d.ny : Int), (d.nz : Int)]

def Dims.Positive (d : Dims) : Prop := 0 < d.nx ∧ 0 < d.ny ∧ 0 < d.nz

instance (d : Dims) : Decidable d.Positive := inferInstanceAs (Decidable (_ ∧ _ ∧ _))

theorem Dims.Positive.count_pos {d : Dims} (h : d.Positive) : 0 < d.count :=
  Nat.mul_pos (Nat.mul_pos h.1 h.2.1) h.2.2

structure Refinement where
  name : String
  number : Int
  dims : Dims
  arrays : Grid.Arrays
  hosts : List Int
  parent : String

/-- The grids that a file describes, before they are put together. -/
structure Blueprint where
  number : Int
  dims : Dims
  arrays : Grid.Arrays
  refinements : List Refinement

namespace Blueprint

def attach (axes : Option MapAxes) (forest : Forest) (r : Refinement) : Outcome Forest :=
  forest.install (Grid.described r.name r.number r.dims r.arrays axes) (r.hosts.map Forest.hostCell)
    r.parent

def forest (b : Blueprint) (axes : Option MapAxes) : Outcome Forest :=
  b.refinements.foldlM (attach axes)
    (.ofMain (Grid.described Forest.mainName b.number b.dims b.arrays axes))

end Blueprint

namespace Keyword

/-- The dimensions and the number of a section, from its grid header or else from its own keyword.
The header may declare a positive number, otherwise the number is the given one. -/
inductive StoreDims (default : Int) (part : List Keyword) (number : Int) (dims : Dims) : Prop where
  | header {head : Keyword} {kind : Int} {rest : List Int}
      (found : first? "GRIDHEAD" part = some head)
      (values : head.integers = .ok (kind :: dims.values ++ rest))
      (number_eq : (rest[0]?.filter (0 < ·)).getD default = number)
  | alone {dimens : Keyword} {rest : List Int} (no_header : first? "GRIDHEAD" part = none)
      (found : first? "DIMENS" part = some dimens)
      (values : dimens.integers = .ok (dims.values ++ rest)) (number_eq : default = number)

/-- A section stores a grid: its dimensions, pillars and depths, and perhaps its activity, each of
the size that the dimensions ask for. -/
structure StoreGrid (default : Int) (part : List Keyword) (number : Int) (dims : Dims)
    (arrays : Grid.Arrays) : Prop where
  positive : dims.Positive
  shape : StoreDims default part number dims
  pillars : ∃ k, first? "COORD" part = some k ∧ k.count = dims.pillarCount ∧
    k.doubles = .ok arrays.pillars
  depths : ∃ k, first? "ZCORN" part = some k ∧ k.count = dims.depthCount ∧
    k.doubles = .ok arrays.depths
  activity : (first? "ACTNUM" part = none ∧ arrays.activity = none) ∨
    ∃ k values, first? "ACTNUM" part = some k ∧ k.count = dims.count ∧ k.integers = .ok values ∧
      arrays.activity = some values

structure StoreRefinement (default : Int) (part : List Keyword) (r : Refinement) : Prop where
  grid : StoreGrid default part r.number r.dims r.arrays
  name : ∃ k, first? "LGR" part = some k ∧ k.getString 0 = .ok r.name
  parent : (r.parent = "" ∧ ∀ k, first? "LGRPARNT" part = some k → k.count = 0) ∨
    ∃ k, first? "LGRPARNT" part = some k ∧ k.count ≠ 0 ∧ k.getString 0 = .ok r.parent
  hosts : ∃ k, first? "HOSTNUM" part = some k ∧ k.count = r.dims.count ∧ k.integers = .ok r.hosts

/-- The keywords of a file with a section for every grid. Where no number is declared the main grid
has 0 and each refinement its place in the file, from 1 on. -/
structure StoreSections (front : List Keyword) (sections : List (List Keyword)) (b : Blueprint) :
    Prop where
  not_opened : "LGR" ∉ names front
  opened : ∀ s ∈ sections, IsSection "LGR" (names s)
  main : StoreGrid 0 front b.number b.dims b.arrays
  refinements : List.Forall₂ (fun part (r : Refinement × Nat) => StoreRefinement (r.2 + 1) part r.1)
    sections b.refinements.zipIdx

end Keyword

theorem Grid.checkCount_eq_ok {k : Keyword} {expected : Nat} :
    checkCount k expected = .ok () ↔ k.count = expected := by
  unfold checkCount
  split <;> simp_all

namespace Grid

variable {dims : Dims} {pillars depths : Keyword} {stored : Option Keyword} {arrays : Arrays}

theorem counts_of_arraysOf (h : arraysOf dims pillars depths stored = .ok arrays) :
    (pillars.count = wrap dims.pillarCount ∧ depths.count = wrap dims.depthCount) ∧
      (pillars.doubles = .ok arrays.pillars ∧ depths.doubles = .ok arrays.depths) ∧
      checkActivity dims.size stored = .ok arrays.activity := by
  obtain ⟨⟨⟩, hpillarCount, h⟩ := bind_eq_ok.1 h
  obtain ⟨⟨⟩, hdepthCount, h⟩ := bind_eq_ok.1 h
  obtain ⟨activity, hactivity, h⟩ := bind_eq_ok.1 h
  obtain ⟨pillarValues, hpillars, h⟩ := bind_eq_ok.1 h
  obtain ⟨depthValues, hdepths, h⟩ := bind_eq_ok.1 h
  cases h
  exact ⟨⟨checkCount_eq_ok.1 hpillarCount, checkCount_eq_ok.1 hdepthCount⟩, ⟨hpillars, hdepths⟩,
    hactivity⟩

/-- Sizes that no word holds ask for fewer depths than the cells read, so there is no grid. -/
theorem depthCount_lt_of_ofArrays (harrays : arraysOf dims pillars depths stored = .ok arrays)
    {name : String} {number : Int} {axes : Option MapAxes} {grid : Grid}
    (h : ofArrays name number dims arrays axes = .ok grid) : dims.depthCount < 2 ^ 64 := by
  obtain ⟨cells, -, -, hread⟩ := ofArrays_eq_ok h
  obtain ⟨⟨-, hcount⟩, ⟨-, hdepths⟩, -⟩ := counts_of_arraysOf harrays
  have hlength : arrays.depths.length < 2 ^ 64 :=
    Nat.lt_of_le_of_lt (Keyword.length_doubles_le hdepths) (hcount ▸ wrap_lt _)
  exact Nat.lt_of_le_of_lt (hread hlength) hlength

end Grid

namespace Forest

open KeywordFile

variable {file : KeywordFile} {stream : Bytes} {part : Catalog} {ks : List Keyword}

theorem ofKeywords_eq_ok {dims : Dims} {pillars depths : Keyword} {activity axes : Option Keyword}
    {forest : Forest} :
    ofKeywords dims pillars depths activity axes = .ok forest ↔
      dims.Positive ∧ ∃ arrays, Grid.arraysOf dims pillars depths activity = .ok arrays ∧
        ∃ found, axesOf axes = .ok found ∧
          ∃ main, Grid.ofArrays mainName 0 dims arrays found = .ok main ∧
            { ofMain main with mapAxes := found } = forest := by
  have hzero : dims.nx = 0 ∨ dims.ny = 0 ∨ dims.nz = 0 ↔ ¬dims.Positive := by
    rw [Dims.Positive]
    omega
  rw [ofKeywords, if_congr hzero rfl rfl]
  by_cases hpos : dims.Positive
  · rw [if_neg (not_not.2 hpos), and_iff_right hpos]
    simp only [bind_eq_ok, pure_eq, Except.ok.injEq]
  · rw [if_pos hpos]
    exact iff_of_false (by rintro ⟨⟩) fun h => hpos h.1

theorem dimsFrom_eq {dims : Dims} (hpos : dims.Positive) (context : String)
    (front rest : List Int) :
    Grid.dimsFrom context front.length (front ++ dims.values ++ rest) = .ok dims := by
  obtain ⟨hx, hy, hz⟩ := hpos
  rw [Grid.dimsFrom, List.append_assoc, List.drop_left]
  simp [Dims.values, Grid.axisSize, hx, hy, hz]

theorem sectionDims_eq (hl : file.Lists stream part ks) {default number : Int} {dims : Dims}
    (hpos : dims.Positive) (h : Keyword.StoreDims default ks number dims) :
    ∃ declared, sectionDims file stream part = .ok (dims, declared) ∧
      (declared.filter (0 < ·)).getD default = number := by
  cases h with
  | @header head kind rest found values number_eq =>
    have hdims : Grid.dimsFrom "GRIDHEAD" 1 (kind :: dims.values ++ rest) = .ok dims :=
      dimsFrom_eq hpos "GRIDHEAD" [kind] rest
    refine ⟨rest[0]?, ?_, number_eq⟩
    simp only [sectionDims, hl.loadOptional_eq, found, ok_bind, values, hdims, pure_eq]
    rfl
  | @alone dimens rest no_header found values number_eq =>
    have hdims : Grid.dimsFrom "DIMENS" 0 (dims.values ++ rest) = .ok dims :=
      dimsFrom_eq hpos "DIMENS" [] rest
    refine ⟨none, ?_, number_eq⟩
    simp only [sectionDims, hl.loadOptional_eq, no_header, found, ok_bind, values, hdims, pure_eq]

theorem loadFrom_first (hl : file.Lists stream part ks) {name : String} {k : Keyword}
    (hk : Keyword.first? name ks = some k) : file.loadFrom stream part name 0 = .ok k := by
  refine hl.loadFrom_eq ?_
  rw [← List.head?_eq_getElem?, Keyword.head?_called, hk]

theorem checkActivity_eq {size : Nat} {activity : Option (List Int)}
    (h : (Keyword.first? "ACTNUM" ks = none ∧ activity = none) ∨
      ∃ k values, Keyword.first? "ACTNUM" ks = some k ∧ k.count = size ∧ k.integers = .ok values ∧
        activity = some values) :
    Grid.checkActivity size (Keyword.first? "ACTNUM" ks) = .ok activity := by
  rcases h with ⟨hnone, rfl⟩ | ⟨k, values, hk, hcount, hvalues, rfl⟩
  · rw [hnone, Grid.checkActivity]
  · simp only [hk, Grid.checkActivity, Grid.checkCount_eq_ok.2 hcount, hvalues, ok_bind,
      pure_eq]

theorem fill_of_storeGrid (hl : file.Lists stream part ks) {default number : Int} {dims : Dims}
    {arrays : Grid.Arrays} (h : Keyword.StoreGrid default ks number dims arrays) :
    arrays.Fill dims := by
  obtain ⟨pillars, hpillars, hpillarCount, hpillarValues⟩ := h.pillars
  obtain ⟨depths, hdepths, hdepthCount, hdepthValues⟩ := h.depths
  obtain ⟨hpillarWhole, hpillarWord⟩ := hl.whole_and_count_lt (List.mem_of_find?_eq_some hpillars)
  obtain ⟨hdepthWhole, hdepthWord⟩ := hl.whole_and_count_lt (List.mem_of_find?_eq_some hdepths)
  exact {
    pillars := (Keyword.length_doubles hpillarWhole hpillarValues).trans hpillarCount
    depths := (Keyword.length_doubles hdepthWhole hdepthValues).trans hdepthCount
    pillarCount_lt := hpillarCount ▸ hpillarWord
    depthCount_lt := hdepthCount ▸ hdepthWord }

theorem sectionGrid_eq (hl : file.Lists stream part ks) {default number : Int} {dims : Dims}
    {arrays : Grid.Arrays} (h : Keyword.StoreGrid default ks number dims arrays) (name : String)
    (axes : Option MapAxes) :
    sectionGrid file stream part name default axes =
      .ok (Grid.described name number dims arrays axes) := by
  have hfill := fill_of_storeGrid hl h
  obtain ⟨declared, hdims, hnumber⟩ := sectionDims_eq hl h.positive h.shape
  obtain ⟨pillars, hpillars, hpillarCount, hpillarValues⟩ := h.pillars
  obtain ⟨depths, hdepths, hdepthCount, hdepthValues⟩ := h.depths
  have hpillarCheck : pillars.count = wrap dims.pillarCount :=
    hpillarCount.trans (wrap_of_lt hfill.pillarCount_lt).symm
  have hdepthCheck : depths.count = wrap dims.depthCount :=
    hdepthCount.trans (wrap_of_lt hfill.depthCount_lt).symm
  have harrays : Grid.arraysOf dims pillars depths (Keyword.first? "ACTNUM" ks) = .ok arrays := by
    simp only [Grid.arraysOf, Grid.checkCount_eq_ok.2 hpillarCheck,
      Grid.checkCount_eq_ok.2 hdepthCheck, ok_bind, hfill.size_eq, checkActivity_eq h.activity,
      hpillarValues, hdepthValues, pure_eq]
  simp only [sectionGrid, hdims, loadFrom_first hl hpillars, loadFrom_first hl hdepths,
    hl.loadOptional_eq, harrays, hnumber, ok_bind, Grid.ofArrays_eq hfill]

theorem sectionParent_eq (hl : file.Lists stream part ks) {parent : String}
    (h : (parent = "" ∧ ∀ k, Keyword.first? "LGRPARNT" ks = some k → k.count = 0) ∨
      ∃ k, Keyword.first? "LGRPARNT" ks = some k ∧ k.count ≠ 0 ∧ k.getString 0 = .ok parent) :
    sectionParent file stream part = .ok parent := by
  rcases h with ⟨rfl, hempty⟩ | ⟨k, hk, hcount, hparent⟩
  · cases hk : Keyword.first? "LGRPARNT" ks with
    | none => simp only [sectionParent, hl.loadOptional_eq, hk, ok_bind, pure_eq]
    | some k =>
      simp only [sectionParent, hl.loadOptional_eq, hk, ok_bind, if_pos (hempty k hk), pure_eq]
  · simp only [sectionParent, hl.loadOptional_eq, hk, ok_bind, if_neg hcount, hparent]

theorem addSection_eq (hl : file.Lists stream part ks) {index : Nat} {r : Refinement}
    (h : Keyword.StoreRefinement (index + 1) ks r) (axes : Option MapAxes) (forest : Forest) :
    addSection file stream axes forest part index = Blueprint.attach axes forest r := by
  obtain ⟨lgr, hlgr, hname⟩ := h.name
  obtain ⟨hosts, hhosts, hcount, hvalues⟩ := h.hosts
  have hgrid := sectionGrid_eq hl h.grid r.name axes
  have hsize : hosts.count = (Grid.described r.name r.number r.dims r.arrays axes).size :=
    hcount.trans (fill_of_storeGrid hl h.grid).size_eq.symm
  simp only [addSection, loadFrom_first hl hlgr, hname, sectionParent_eq hl h.parent, hgrid,
    loadFrom_first hl hhosts, Grid.checkCount_eq_ok.2 hsize, hvalues, ok_bind, Blueprint.attach]

theorem addSections_eq {blocks : List Catalog} {sections : List (List Keyword)}
    (hl : List.Forall₂ (file.Lists stream) blocks sections) {rs : List Refinement} {first : Nat}
    (h : List.Forall₂
      (fun part (r : Refinement × Nat) => Keyword.StoreRefinement (r.2 + 1) part r.1)
      sections (rs.zipIdx first)) (axes : Option MapAxes) (forest : Forest) :
    (blocks.zipIdx first).foldlM
        (fun forest (part, index) => addSection file stream axes forest part index) forest =
      rs.foldlM (Blueprint.attach axes) forest := by
  induction hl generalizing rs first forest with
  | nil =>
    cases rs with
    | nil => rfl
    | cons r rs => cases h
  | cons hpart tail ih =>
    cases rs with
    | nil => cases h
    | cons r rs =>
      obtain ⟨hr, hback⟩ := List.forall₂_cons.1 h
      simp only [List.zipIdx_cons, List.foldlM_cons, addSection_eq hpart hr]
      exact congrArg (_ >>= ·) (funext fun forest' => ih hback forest')

/-- The sections of a file are read as the grids that they store. -/
theorem ofSections_eq {front : List Keyword} {sections : List (List Keyword)} {b : Blueprint}
    (hfile : file.Holds stream (front ++ sections.flatten))
    (h : Keyword.StoreSections front sections b) (axes : Option MapAxes) :
    ofSections file stream axes = b.forest axes := by
  obtain ⟨hhead, hblocks⟩ := hfile.lists.sections h.not_opened h.opened
  simp only [ofSections, sectionGrid_eq hhead h.main, ok_bind, Blueprint.forest]
  exact addSections_eq hblocks h.refinements axes _

end Forest

end Reservoir
