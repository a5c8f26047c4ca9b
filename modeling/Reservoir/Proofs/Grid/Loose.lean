import Reservoir.Proofs.Grid.Layouts
import Reservoir.Proofs.Stream.Recognizing

/-!
Loose keywords. The keywords of one grid make the same forest when they are at hand and when they
are written to a file, in any order, with a header of their dimensions.
-/

namespace Reservoir

open Outcome Keyword

/-- The keywords of one grid, and its dimensions beside them. -/
structure LooseGrid where
  dims : Dims
  pillars : Keyword
  depths : Keyword
  activity : Option Keyword
  axes : Option Keyword

theorem MapAxes.exists_ofValues_iff {values : List Double} :
    (∃ axes, ofValues values = .ok axes) ↔ values.length = 6 := by
  constructor
  · rintro ⟨axes, h⟩
    unfold ofValues at h
    split at h
    · next x₁ y₁ x₀ y₀ x₂ y₂ hvalues => simpa using congrArg List.length hvalues
    · cases h
  · intro hlength
    match values, hlength with
    | [x₁, y₁, x₀, y₀, x₂, y₂], _ =>
      simp only [ofValues, List.map_cons, List.map_nil]
      split
      · split
        · exact ⟨_, rfl⟩
        · exact ⟨_, rfl⟩
      · exact ⟨_, rfl⟩

namespace Keyword

def ofParts (parts : List (String × Option Keyword)) : List Keyword :=
  parts.flatMap (·.2.toList)

theorem called_ofParts {parts : List (String × Option Keyword)}
    (hnames : (parts.map Prod.fst).Nodup)
    (hown : ∀ part ∈ parts, ∀ k, part.2 = some k → k.name.val = part.1) (name : String) :
    called name (ofParts parts) = (parts.lookup name).join.toList := by
  induction parts with
  | nil => rfl
  | cons part parts ih =>
    obtain ⟨own, found⟩ := part
    simp only [List.map_cons, List.nodup_cons] at hnames
    simp only [List.mem_cons, forall_eq_or_imp] at hown
    have hfound : called name found.toList = if own = name then found.toList else [] := by
      cases found with
      | none => rw [Option.toList_none, ite_self]; rfl
      | some k => rw [Option.toList_some, called_cons, hown.1 k rfl]; rfl
    rw [ofParts, List.flatMap_cons, called_append, hfound, ← ofParts, ih hnames.2 hown.2,
      List.lookup_cons]
    by_cases hname : own = name
    · subst hname
      have hrest : parts.lookup own = none :=
        List.lookup_eq_none_iff.2 fun part hpart => by
          simpa using fun heq : own = part.1 => hnames.1 (heq ▸ List.mem_map_of_mem hpart)
      rw [if_pos rfl, hrest, beq_self_eq_true]
      simp
    · rw [if_neg hname, beq_false_of_ne (Ne.symm hname)]
      simp

theorem called_perm_ofParts {parts : List (String × Option Keyword)}
    (hnames : (parts.map Prod.fst).Nodup)
    (hown : ∀ part ∈ parts, ∀ k, part.2 = some k → k.name.val = part.1) {ks : List Keyword}
    (hks : ks.Perm (ofParts parts)) (name : String) :
    called name ks = (parts.lookup name).join.toList := by
  have hperm : (called name ks).Perm (called name (ofParts parts)) := hks.filter _
  rw [called_ofParts hnames hown] at hperm
  cases hfound : (parts.lookup name).join with
  | none =>
    rw [hfound] at hperm
    exact hperm.eq_nil
  | some k =>
    rw [hfound] at hperm
    exact hperm.eq_singleton

end Keyword

namespace LooseGrid

def loose (g : LooseGrid) : List Keyword :=
  g.pillars :: g.depths :: (g.activity.toList ++ g.axes.toList)

def keywords (g : LooseGrid) : List Keyword := g.dims.header 0 :: g.loose

structure Named (g : LooseGrid) : Prop where
  pillars : g.pillars.name.val = "COORD"
  depths : g.depths.name.val = "ZCORN"
  activity : ∀ k, g.activity = some k → k.name.val = "ACTNUM"
  axes : ∀ k, g.axes = some k → k.name.val = "MAPAXES"

/-- At least one cell, and nothing that a file could not count. -/
structure Fits (g : LooseGrid) : Prop where
  positive : g.dims.Positive
  nx_le : g.dims.nx ≤ wordLimit
  ny_le : g.dims.ny ≤ wordLimit
  nz_le : g.dims.nz ≤ wordLimit
  count_le : ∀ k ∈ g.loose, k.count ≤ wordLimit

theorem Fits.areWords {g : LooseGrid} (h : g.Fits) : AreWords (0 :: g.dims.values) := by
  have hx := h.nx_le
  have hy := h.ny_le
  have hz := h.nz_le
  simp only [wordLimit] at hx hy hz
  simp only [AreWords, Dims.values, List.forall_mem_cons]
  exact ⟨by decide, by omega, by omega, by omega, List.forall_mem_nil _⟩

def ofArrays (dims : Dims) (arrays : Grid.Arrays) (axes : Option Keyword) : LooseGrid where
  dims := dims
  pillars := arrays.pillarKeyword
  depths := arrays.depthKeyword
  activity := arrays.activityKeyword?
  axes := axes

theorem named_ofArrays (dims : Dims) (arrays : Grid.Arrays) {axes : Option Keyword}
    (haxes : ∀ k, axes = some k → k.name.val = "MAPAXES") : (ofArrays dims arrays axes).Named where
  pillars := rfl
  depths := rfl
  activity _ := Grid.Arrays.name_activityKeyword
  axes := haxes

def parts (g : LooseGrid) : List (String × Option Keyword) :=
  [("GRIDHEAD", some (g.dims.header 0)), ("COORD", some g.pillars), ("ZCORN", some g.depths),
    ("ACTNUM", g.activity), ("MAPAXES", g.axes)]

variable {g : LooseGrid} {ks : List Keyword}

theorem keywords_eq (g : LooseGrid) : g.keywords = ofParts g.parts := by
  simp [keywords, loose, ofParts, parts]

theorem Named.called_eq (h : g.Named) (hks : ks.Perm g.keywords) (name : String) :
    called name ks = (g.parts.lookup name).join.toList := by
  have hnames : (g.parts.map Prod.fst).Nodup :=
    show ["GRIDHEAD", "COORD", "ZCORN", "ACTNUM", "MAPAXES"].Nodup by decide
  refine called_perm_ofParts hnames ?_ (g.keywords_eq ▸ hks) name
  simp only [parts, List.forall_mem_cons, Option.some.injEq, forall_eq']
  exact ⟨rfl, h.pillars, h.depths, h.activity, h.axes, List.forall_mem_nil _⟩

theorem Named.first?_eq (h : g.Named) (hks : ks.Perm g.keywords) (name : String) :
    first? name ks = (g.parts.lookup name).join := by
  rw [← head?_called, h.called_eq hks, Option.head?_toList]

theorem Named.notMem_names (h : g.Named) (hks : ks.Perm g.keywords) {name : String}
    (hname : g.parts.lookup name = none) : name ∉ names ks := by
  rw [Keyword.notMem_names, h.called_eq hks, hname]
  rfl

theorem Fits.count_le_of_perm (h : g.Fits) (hks : ks.Perm g.keywords) {k : Keyword} (hk : k ∈ ks) :
    k.count ≤ wordLimit := by
  rcases List.mem_cons.1 (hks.mem_iff.1 hk) with rfl | hmem
  · exact show 5 ≤ wordLimit by decide
  · exact h.count_le k hmem

end LooseGrid

namespace Forest

variable {g : LooseGrid} {ks : List Keyword} {file : KeywordFile} {stream : Bytes}

theorem sectionGrid_loose {part : Catalog} (hl : file.Lists stream part ks) (hnamed : g.Named)
    (hfits : g.Fits) (hks : ks.Perm g.keywords) (axes : Option MapAxes) :
    sectionGrid file stream part mainName 0 axes =
      (Grid.arraysOf g.dims g.pillars g.depths g.activity >>= fun arrays =>
        Grid.ofArrays mainName 0 g.dims arrays axes) := by
  have hfirst := fun name => hnamed.first?_eq hks name
  have hshape : StoreDims 0 ks 0 g.dims :=
    .header (hfirst "GRIDHEAD") (Dims.integers_header hfits.areWords) rfl
  obtain ⟨declared, hdims, hnumber⟩ := sectionDims_eq hl hfits.positive hshape
  have hactivity : first? "ACTNUM" ks = g.activity := hfirst "ACTNUM"
  simp only [sectionGrid, hdims, loadFrom_first hl (hfirst "COORD"),
    loadFrom_first hl (hfirst "ZCORN"), hl.loadOptional_eq, hactivity, hnumber, ok_bind]

/-- The forest of a file of loose keywords is its main grid alone. -/
theorem build_loose (hfile : file.Holds stream ks) (hnamed : g.Named) (hfits : g.Fits)
    (hks : ks.Perm g.keywords) (applyAxes : Bool) :
    build file stream applyAxes = (axesOf g.axes >>= fun axes =>
      (Grid.arraysOf g.dims g.pillars g.depths g.activity >>= fun arrays =>
        Grid.ofArrays mainName 0 g.dims arrays (if applyAxes then axes else none)).map fun main =>
          { ofMain main with mapAxes := axes }) := by
  have hrest : ∀ name, g.parts.lookup name = none → name ∉ names ks :=
    fun name => hnamed.notMem_names hks
  have hlists : file.Lists stream file.catalog (ks ++ ([] : List (List Keyword)).flatten) := by
    rw [List.flatten_nil, List.append_nil]
    exact hfile.lists
  obtain ⟨hhead, -⟩ := hlists.sections (hrest "LGR" rfl) (List.forall_mem_nil _)
  have haxes : first? "MAPAXES" ks = g.axes := hnamed.first?_eq hks "MAPAXES"
  have hlayout : hasCellRecords file = false := by
    have hnone : file.catalog.has "COORDS" = false :=
      Bool.eq_false_iff.2 fun hhas => hrest "COORDS" rfl ((hfile.lists.has_iff "COORDS").1 hhas)
    rw [hasCellRecords, hnone, Bool.false_and]
  have hgrids : ∀ axes, gridsOf file stream axes =
      (Grid.arraysOf g.dims g.pillars g.depths g.activity >>= fun arrays =>
        Grid.ofArrays mainName 0 g.dims arrays axes).map ofMain := by
    intro axes
    rw [gridsOf, hlayout, if_neg Bool.false_ne_true, ofSections,
      blocks_eq_nil hfile (hrest "LGR" rfl), sectionGrid_loose hhead hnamed hfits hks]
    rfl
  obtain ⟨flag, hflag⟩ := isDualPorosity_eq_ok hfile fun k hk =>
    absurd (mem_names_of_first? hk) (hrest "FILEHEAD" rfl)
  simp only [build_bind, hhead.loadOptional_eq, haxes, ok_bind, hgrids, hflag,
    readAll_eq_nil hfile (hrest "NNCHEAD" rfl) (hrest "NNCHEADA" rfl)]
  refine congrArg (_ >>= ·) (funext fun axes => ?_)
  generalize (Grid.arraysOf g.dims g.pillars g.depths g.activity >>= _) = main
  cases main <;> rfl

/-- The keywords of a grid make a forest if and only if the file that they are written to, in any
order and with a header of the dimensions, is built to it. It has no refinements and no
connections. Built without the map axes applied, the file gives the forest of the keywords without
axes, and tells of the axes all the same. -/
theorem build_agrees_ofKeywords (hnamed : g.Named) (hfits : g.Fits) (hks : ks.Perm g.keywords)
    (order : ByteOrder) (path : String) :
    ((Writer.start (.binary order)).writeAll ks).2 = none ∧
    ∃ file, (KeywordFile.ofStream path (Writer.streamOf order ks) .none >>=
        (·.scan (Writer.streamOf order ks))) = .ok file ∧
      (∀ forest, ofKeywords g.dims g.pillars g.depths g.activity g.axes = .ok forest ↔
        build file (Writer.streamOf order ks) true = .ok forest) ∧
      ∀ forest, build file (Writer.streamOf order ks) true = .ok forest →
        forest.refinements = [] ∧ forest.connections = [] ∧
        ∃ plain, ofKeywords g.dims g.pillars g.depths g.activity none = .ok plain ∧
          build file (Writer.streamOf order ks) false =
            .ok { plain with mapAxes := forest.mapAxes } := by
  have hcounts : ∀ k ∈ ks, k.count ≤ wordLimit := fun k => hfits.count_le_of_perm hks
  have hne : ks ≠ [] := by
    rintro rfl
    cases hks.nil_eq
  obtain ⟨file, hopen, -, hfile⟩ :=
    Writer.scan_streamOf hcounts hne (Encoding.Hints.admit_none order) path
  refine ⟨by rw [(Writer.writeAll_binary hcounts order).2], file, hopen, fun forest => ?_,
    fun forest hforest => ?_⟩
  · rw [build_loose hfile hnamed hfits hks, ofKeywords_eq_ok, and_iff_right hfits.positive]
    simp only [bind_eq_ok, map_eq_ok, if_true]
    constructor
    · rintro ⟨arrays, harrays, axes, haxes, main, hmain, rfl⟩
      exact ⟨axes, haxes, main, ⟨arrays, harrays, hmain⟩, rfl⟩
    · rintro ⟨axes, haxes, main, ⟨arrays, harrays, hmain⟩, rfl⟩
      exact ⟨arrays, harrays, axes, haxes, main, hmain, rfl⟩
  · rw [build_loose hfile hnamed hfits hks] at hforest
    obtain ⟨axes, haxes, hforest⟩ := bind_eq_ok.1 hforest
    obtain ⟨main, hmain, rfl⟩ := map_eq_ok.1 hforest
    obtain ⟨arrays, harrays, hmain⟩ := bind_eq_ok.1 hmain
    obtain ⟨plain, hplain⟩ := Grid.exists_ofArrays hmain none
    refine ⟨rfl, rfl, ofMain plain, ?_, ?_⟩
    · exact ofKeywords_eq_ok.2 ⟨hfits.positive, arrays, harrays, none, rfl, plain, hplain, rfl⟩
    · rw [build_loose hfile hnamed hfits hks, haxes, harrays, ok_bind, ok_bind,
        if_neg Bool.false_ne_true, hplain]
      rfl

/-- One inactive cell with map axes, stored in the reverse order. -/
theorem build_agrees_ofKeywords_reversed :
    let arrays := Grid.Arrays.counting ⟨1, 1, 1⟩ (some [0])
    let axes := holding ⟨"MAPAXES", by decide⟩ (List.replicate 6 (⟨0⟩ : Double))
    let g := LooseGrid.ofArrays ⟨1, 1, 1⟩ arrays (some axes)
    let stream := Writer.streamOf .little g.keywords.reverse
    g.Named ∧ g.Fits ∧ ∃ file forest,
      (KeywordFile.ofStream "CELL.EGRID" stream .none >>= (·.scan stream)) = .ok file ∧
      build file stream true = .ok forest ∧ forest.refinements = [] ∧ forest.connections = [] := by
  intro arrays axes g stream
  have hnamed : g.Named := LooseGrid.named_ofArrays _ _ (by rintro k ⟨⟩; rfl)
  have hfits : g.Fits := {
    positive := by decide
    nx_le := by decide
    ny_le := by decide
    nz_le := by decide
    count_le := by decide }
  have hwritable : Grid.Writable 0 g.dims arrays := Grid.writable_counting (by decide)
  have haxes : axesOf g.axes = MapAxes.ofValues (List.replicate 6 (⟨0⟩ : Double)) := by
    simp only [g, axes, LooseGrid.ofArrays, axesOf, doubles_holding, ok_bind]
  obtain ⟨found, hfound⟩ :=
    MapAxes.exists_ofValues_iff.2 (List.length_replicate (a := (⟨0⟩ : Double)))
  have hforest := ofKeywords_eq_ok.2 ⟨hfits.positive, _, Grid.arraysOf_words hwritable,
    found, haxes.trans hfound, _, Grid.ofArrays_eq hwritable.fill mainName 0 found, rfl⟩
  obtain ⟨-, file, hopen, hagree, hplain⟩ :=
    build_agrees_ofKeywords hnamed hfits (List.reverse_perm g.keywords) .little "CELL.EGRID"
  have hbuild := (hagree _).1 hforest
  obtain ⟨hrefinements, hconnections, -⟩ := hplain _ hbuild
  exact ⟨hnamed, hfits, file, _, hopen, hbuild, hrefinements, hconnections⟩

end Forest

end Reservoir
