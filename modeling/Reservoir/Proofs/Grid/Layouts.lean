import Mathlib.Data.List.Forall2
import Reservoir.Proofs.Grid.Growth
import Reservoir.Proofs.Grid.Written

/-!
Two layouts of one model. A file of pillars and depths and a file of cell records that describe the
same grids are built to the same forest, or refused for the same reason.
-/

namespace Reservoir

open Outcome Keyword

theorem Keyword.StoreGrid.length_activity {file : KeywordFile} {stream : Bytes} {part : Catalog}
    {ks : List Keyword} (hl : file.Lists stream part ks) {default number : Int} {dims : Dims}
    {arrays : Grid.Arrays} (h : StoreGrid default ks number dims arrays) :
    ∀ values, arrays.activity = some values → values.length = dims.count := by
  intro values hvalues
  rcases h.activity with ⟨-, hnone⟩ | ⟨k, found, hk, hcount, hfound, hsome⟩
  · rw [hnone] at hvalues
    cases hvalues
  · rw [hsome] at hvalues
    cases hvalues
    obtain ⟨hwhole, -⟩ := hl.whole_and_count_lt (List.mem_of_find?_eq_some hk)
    rw [length_integers hwhole hfound, hcount]

theorem Keyword.StoreSections.sized {file : KeywordFile} {stream : Bytes} {front : List Keyword}
    {sections : List (List Keyword)} {b : Blueprint}
    (hfile : file.Holds stream (front ++ sections.flatten)) (h : StoreSections front sections b) :
    b.Sized := by
  obtain ⟨hhead, hblocks⟩ := hfile.lists.sections h.not_opened h.opened
  refine ⟨Forest.fill_of_storeGrid hhead h.main, h.main.length_activity hhead, fun r hr => ?_⟩
  obtain ⟨i, hi⟩ := List.getElem?_of_mem hr
  have hmem : (r, i) ∈ b.refinements.zipIdx := List.mk_mem_zipIdx_iff_getElem?.2 hi
  obtain ⟨part, hmem, hpart⟩ := exists_of_mem h.refinements.flip hmem
  obtain ⟨block, -, hl : file.Lists stream block part⟩ := exists_of_mem hblocks.flip hmem
  obtain ⟨k, hk, hcount, hvalues⟩ := hpart.hosts
  obtain ⟨hwhole, -⟩ := hl.whole_and_count_lt (List.mem_of_find?_eq_some hk)
  exact ⟨Forest.fill_of_storeGrid hl hpart.grid, hpart.grid.length_activity hl, by
    rw [length_integers hwhole hvalues, hcount]⟩

def Blueprint.build (b : Blueprint) (axes : Option Keyword) (applyAxes : Bool) :
    Outcome Forest := do
  let axes ← Forest.axesOf axes
  let forest ← b.forest (if applyAxes then axes else none)
  return { forest with mapAxes := axes, connections := [] }

namespace Forest

variable {file : KeywordFile} {stream : Bytes} {ks : List Keyword}

theorem isDualPorosity_eq_ok (hfile : file.Holds stream ks)
    (h : ∀ k, first? "FILEHEAD" ks = some k → k.type = .int) :
    ∃ flag, isDualPorosity file stream = .ok flag := by
  have hget := hfile.lists.get? "FILEHEAD" 0
  rw [← List.head?_eq_getElem?, head?_called] at hget
  cases hentry : file.catalog.get? "FILEHEAD" 0 with
  | none => exact ⟨false, by simp only [isDualPorosity, hentry]⟩
  | some e =>
    rw [hentry] at hget
    cases hfirst : first? "FILEHEAD" ks with
    | none =>
      rw [hfirst] at hget
      cases hget
    | some k =>
      rw [hfirst] at hget
      cases hget with
      | some hload =>
        have htype : e.type = .int := (congrArg Header.type hload.1).trans (h k hfirst)
        by_cases hcount : 5 < e.count
        · have he : e ∈ file.catalog.entries := List.mem_of_mem_filter (List.mem_of_getElem? hentry)
          obtain ⟨flag, hflag⟩ :=
            @KeywordFile.Holds.exists_readElement file stream ks Int32 _ hfile e he htype.symm
              (by rw [htype]; decide) 5 hcount
          exact ⟨flag != 0, by
            simp only [isDualPorosity, hentry, if_pos hcount, hflag, ok_bind, pure_eq]⟩
        · exact ⟨false, by simp only [isDualPorosity, hentry, if_neg hcount]⟩

theorem blocks_eq_nil (hfile : file.Holds stream ks) {name : String} (hname : name ∉ names ks) :
    file.catalog.blocks name = [] := by
  rw [Catalog.blocks, hfile.lists.count_eq, notMem_names.1 hname]
  rfl

theorem readAll_eq_nil (hfile : file.Holds stream ks) (hnone : "NNCHEAD" ∉ names ks)
    (hnone' : "NNCHEADA" ∉ names ks) (sizes : Connection.Sizes) (dualPorosity : Bool) :
    Connection.readAll file stream sizes dualPorosity = .ok [] := by
  simp [Connection.readAll, blocks_eq_nil hfile hnone, blocks_eq_nil hfile hnone']

theorem build_eq {b : Blueprint} {axes : Option Keyword} (hfile : file.Holds stream ks)
    (haxes : file.loadOptional stream (file.catalog.head "LGR") "MAPAXES" = .ok axes)
    (hgrids : ∀ axes, gridsOf file stream axes = b.forest axes)
    (hhead : ∀ k, first? "FILEHEAD" ks = some k → k.type = .int) (hnone : "NNCHEAD" ∉ names ks)
    (hnone' : "NNCHEADA" ∉ names ks) (applyAxes : Bool) :
    build file stream applyAxes = b.build axes applyAxes := by
  obtain ⟨flag, hflag⟩ := isDualPorosity_eq_ok hfile hhead
  simp only [build_bind, haxes, ok_bind, hgrids, hflag, readAll_eq_nil hfile hnone hnone',
    Blueprint.build, pure_eq]

theorem gridsOf_sections_eq {front : List Keyword} {sections : List (List Keyword)} {b : Blueprint}
    (hfile : file.Holds stream (front ++ sections.flatten)) (h : StoreSections front sections b)
    (axes : Option MapAxes) : gridsOf file stream axes = b.forest axes := by
  obtain ⟨depths, hdepths, -⟩ := h.main.depths
  have hmem : "ZCORN" ∈ names (front ++ sections.flatten) := by
    rw [names, List.map_append]
    exact List.mem_append_left _ (mem_names_of_first? hdepths)
  have hkind : hasCellRecords file = false := by
    rw [hasCellRecords, (hfile.lists.has_iff "ZCORN").2 hmem, Bool.not_true, Bool.and_false]
  rw [gridsOf, hkind, if_neg Bool.false_ne_true, ofSections_eq hfile h]

theorem build_sections_eq {front : List Keyword} {sections : List (List Keyword)} {b : Blueprint}
    (hfile : file.Holds stream (front ++ sections.flatten)) (h : StoreSections front sections b)
    (hhead : ∀ k, first? "FILEHEAD" (front ++ sections.flatten) = some k → k.type = .int)
    (hnone : "NNCHEAD" ∉ names (front ++ sections.flatten))
    (hnone' : "NNCHEADA" ∉ names (front ++ sections.flatten)) (applyAxes : Bool) :
    build file stream applyAxes = b.build (first? "MAPAXES" front) applyAxes := by
  obtain ⟨hfront, -⟩ := hfile.lists.sections h.not_opened h.opened
  exact build_eq hfile (hfront.loadOptional_eq "MAPAXES") (gridsOf_sections_eq hfile h) hhead hnone
    hnone' applyAxes

theorem hasCellRecords_of_holds {f : RecordedFile} (hfile : file.Holds stream f.keywords)
    (hnamed : f.Named) (hne : f.allRecords ≠ []) : hasCellRecords file = true := by
  have hrecords : file.catalog.has "COORDS" = true := by
    refine (hfile.lists.has_iff "COORDS").2 ?_
    by_contra hnone
    rw [notMem_names, hnamed.called_coords, List.map_eq_nil_iff] at hnone
    exact hne hnone
  have hdepths : file.catalog.has "ZCORN" = false :=
    Bool.eq_false_iff.2 fun hhas =>
      hnamed.notMem_keywords "ZCORN" (by decide) ((hfile.lists.has_iff "ZCORN").1 hhas)
  rw [hasCellRecords, hrecords, hdepths]
  rfl

theorem gridsOf_records_eq {f : RecordedFile} {b : Blueprint} (hfile : file.Holds stream f.keywords)
    (h : f.Stores b) (hsized : b.Sized) (hnumbered : b.Numbered) (axes : Option MapAxes) :
    gridsOf file stream axes = b.forest axes := by
  have hne : f.allRecords ≠ [] := by
    refine List.append_ne_nil_of_left_ne_nil (List.ne_nil_of_length_pos ?_) _
    rw [h.main.length_records]
    exact h.main.positive.count_pos
  rw [gridsOf, if_pos (hasCellRecords_of_holds hfile h.named hne),
    ofRecords_eq hfile h hsized hnumbered]

theorem build_records_eq {f : RecordedFile} {b : Blueprint} (hfile : file.Holds stream f.keywords)
    (h : f.Stores b) (hsized : b.Sized) (hnumbered : b.Numbered) (applyAxes : Bool) :
    build file stream applyAxes = b.build f.axes applyAxes := by
  have hnamed := h.named
  have hrest := fun name hname => hnamed.notMem_keywords name hname
  have hsections : ∀ s ∈ f.refinements.map RecordedRefinement.keywords,
      IsSection "LGR" (names s) := by
    intro s hs
    obtain ⟨r, hr, rfl⟩ := List.mem_map.1 hs
    exact (hnamed.refinements r hr).isSection
  obtain ⟨hfront, -⟩ := hfile.lists.sections hnamed.notMem_front hsections
  have haxes : file.loadOptional stream (file.catalog.head "LGR") "MAPAXES" = .ok f.axes := by
    rw [hfront.loadOptional_eq, hnamed.first?_axes]
  have hhead : ∀ k, first? "FILEHEAD" f.keywords = some k → k.type = .int := by
    intro k hk
    rw [← head?_called, notMem_names.1 (hrest "FILEHEAD" (by decide))] at hk
    cases hk
  exact build_eq hfile haxes (gridsOf_records_eq hfile h hsized hnumbered) hhead
    (hrest "NNCHEAD" (by decide)) (hrest "NNCHEADA" (by decide)) applyAxes

/-- A model is built alike from its pillars and depths and from the records of its cells. -/
theorem build_sections_agrees_build_records {pillared recorded : KeywordFile} {bytes bytes' : Bytes}
    {front : List Keyword} {sections : List (List Keyword)} {f : RecordedFile} {b : Blueprint}
    (hpillared : pillared.Holds bytes (front ++ sections.flatten))
    (hsections : StoreSections front sections b) (hnumbered : b.Numbered)
    (hhead : ∀ k, first? "FILEHEAD" (front ++ sections.flatten) = some k → k.type = .int)
    (hnone : "NNCHEAD" ∉ names (front ++ sections.flatten))
    (hnone' : "NNCHEADA" ∉ names (front ++ sections.flatten))
    (hrecorded : recorded.Holds bytes' f.keywords) (hrecords : f.Stores b)
    (haxes : axesOf (first? "MAPAXES" front) = axesOf f.axes) (applyAxes : Bool) :
    build pillared bytes applyAxes = build recorded bytes' applyAxes := by
  rw [build_sections_eq hpillared hsections hhead hnone hnone',
    build_records_eq hrecorded hrecords (hsections.sized hpillared) hnumbered, Blueprint.build,
    Blueprint.build, haxes]

end Forest

/-- Two cells, the first of them refined, in both layouts; the cells are recorded in reverse. -/
theorem Forest.build_sections_agrees_build_records_reversed :
    let inner : Refinement := ⟨"INNER", 1, ⟨1, 1, 1⟩, .counting ⟨1, 1, 1⟩ none, [1], ""⟩
    let b : Blueprint := ⟨0, ⟨2, 1, 1⟩, .counting ⟨2, 1, 1⟩ (some [1, 0]), [inner]⟩
    let lgr := text ⟨"LGR", by decide⟩ "INNER" (by decide)
    let front := ofGrid b.number b.dims b.arrays
    let part := ofRefinement [lgr] inner
    let f : RecordedFile := {
      toRecordedGrid := .ofCells b.dims b.arrays none [1, 0]
      axes := none
      refinements := [.ofCells lgr inner [0]] }
    StoreSections front [part] b ∧ b.Numbered ∧ f.Stores b ∧ ∃ pillared bytes recorded bytes',
      pillared.Holds bytes (front ++ [part].flatten) ∧ recorded.Holds bytes' f.keywords ∧
        ∀ applyAxes, build pillared bytes applyAxes = build recorded bytes' applyAxes ∧
          ∃ forest, build recorded bytes' applyAxes = .ok forest ∧
            forest.refinements.map Grid.name = ["INNER"] := by
  intro inner b lgr front part f
  have hlgr : Naming inner [lgr] := .outer rfl (by decide +kernel) rfl
  have hmain : Grid.Writable b.number b.dims b.arrays := Grid.writable_counting (by decide)
  have hinner : inner.Writable := ⟨Grid.writable_counting (by decide), rfl, by decide⟩
  have hsections : StoreSections front [part] b := {
    not_opened := by decide
    opened := List.forall_mem_singleton.2 (isSection_ofRefinement [] hlgr (by decide))
    main := storeGrid_ofGrid [] [] hmain (.inl rfl) (by decide) (by decide)
    refinements := .cons
      (storeRefinement_ofRefinement [] hlgr hinner (.inl rfl) (by decide)) .nil }
  have hrecords : f.Stores b := {
    main := RecordedGrid.stores_ofCells hmain (by rintro cells ⟨⟩) (by decide)
    axes_named := by rintro k ⟨⟩
    refinements := .cons (RecordedRefinement.stores_ofCells hinner hlgr (by decide) (by decide))
      .nil }
  have hcounts : ∀ k ∈ f.keywords, k.count ≤ wordLimit := fun k =>
    RecordedFile.count_le RecordedGrid.counted_ofCells (by rintro k ⟨⟩)
      (List.forall_mem_singleton.2 ⟨by decide, RecordedGrid.counted_ofCells⟩)
  obtain ⟨pillared, bytes, hpillared⟩ :=
    @KeywordFile.exists_holds (front ++ [part].flatten) .big (by decide)
  obtain ⟨recorded, bytes', hrecorded⟩ := KeywordFile.exists_holds .little hcounts
  have hnumbered : b.Numbered := Blueprint.numbered_of_range rfl rfl
  refine ⟨hsections, hnumbered, hrecords, pillared, bytes, recorded, bytes', hpillared, hrecorded,
    fun applyAxes => ⟨?_, ?_⟩⟩
  · exact build_sections_agrees_build_records hpillared hsections hnumbered
      (fun k hk => by cases hk) (by decide) (by decide) hrecorded hrecords rfl applyAxes
  · rw [build_records_eq hrecorded hrecords (hsections.sized hpillared) hnumbered]
    cases applyAxes
    · exact ⟨_, rfl, rfl⟩
    · exact ⟨_, rfl, rfl⟩

end Reservoir
