import Mathlib.Data.List.DropRight
import Reservoir.Proofs.Grid.Layouts
import Reservoir.Proofs.Stream.Places

/-!
The names of refinements. A refinement is named by its `LGR` keyword, without the fillers at the end
of the slot. A name that is looked up loses all blanks at its end, and there are more blanks than
fillers; so a refinement is found by its own name if and only if that does not end in a blank. By
its number it is always found.
-/

namespace Reservoir

open Outcome Keyword

namespace Text

def endsInBlank (s : String) : Bool := s.toList.getLast?.any isBlank

theorem trimEnd_eq_self (s : String) : trimEnd s.toList = s.toList ↔ endsInBlank s = false := by
  rw [trimEnd, dropTrailing, ← List.rdropWhile, List.rdropWhile_eq_self_iff, endsInBlank]
  rcases List.eq_nil_or_concat s.toList with hnil | ⟨init, c, hconcat⟩
  · simp [hnil]
  · simp [hconcat]

end Text

namespace Forest

variable {file : KeywordFile} {stream : Bytes} {axes : Option MapAxes} {forest forest' : Forest}

theorem names_install {grid : Grid} {hosts : List (Option Nat)} {parent : String}
    (h : forest.install grid hosts parent = .ok forest') :
    forest'.refinements.map Grid.name = forest.refinements.map Grid.name ++ [grid.name] := by
  obtain ⟨p, parentGrid, cells, hi⟩ := @installed_of_install forest forest' ⟨grid, hosts, parent⟩ h
  exact hi.map_refinements (f := Grid.name) fun _ => rfl

theorem names_addSection {part : Catalog} {index : Nat}
    (h : addSection file stream axes forest part index = .ok forest') :
    ∃ name, NamedBy (file.loadFrom stream part "LGR" 0) name ∧
      forest'.refinements.map Grid.name = forest.refinements.map Grid.name ++ [name] := by
  obtain ⟨name, parent, grid, hosts, hname, hgrid, -, hinstall⟩ := addSection_eq_ok h
  obtain ⟨dims, declared, arrays, -, -, hmade⟩ := sectionGrid_eq_ok hgrid
  obtain ⟨cells, -, rfl, -⟩ := Grid.ofArrays_eq_ok hmade
  exact ⟨name, hname, names_install hinstall⟩

theorem names_ofSections (h : ofSections file stream axes = .ok forest) :
    List.Forall₂ (fun part => NamedBy (file.loadFrom stream part "LGR" 0))
      (file.catalog.blocks "LGR") (forest.refinements.map Grid.name) := by
  obtain ⟨main, -, hall⟩ := bind_eq_ok.1 h
  have hstart : List.Forall₂ (fun part => NamedBy (file.loadFrom stream part "LGR" 0))
      (([] : List (Catalog × Nat)).map Prod.fst) ((ofMain main).refinements.map Grid.name) := .nil
  have hlast := foldlM_invariant_related
    (P := fun (seen : List (Catalog × Nat)) (forest : Forest) =>
      List.Forall₂ (fun part => NamedBy (file.loadFrom stream part "LGR" 0))
        (seen.map Prod.fst) (forest.refinements.map Grid.name))
    (fun seen a c b b' hsame hb hstep => by
      obtain rfl : a = c := hsame
      obtain ⟨name, hname, hnames⟩ := names_addSection hstep
      rw [List.map_append, hnames]
      exact List.rel_append hb (.cons hname .nil))
    (List.forall₂_same.2 fun _ _ => rfl) hstart hall
  rwa [List.nil_append, List.zipIdx_map_fst] at hlast

theorem namedBy_recordedNames {index : Nat} {names : String × String}
    (h : recordedNames file stream index = .ok names) :
    NamedBy (file.loadNamed stream "LGR" (index - 1)) names.1 := by
  obtain ⟨lgr, hlgr, h⟩ := bind_eq_ok.1 h
  obtain ⟨name, hname, h⟩ := bind_eq_ok.1 h
  split at h
  · obtain ⟨parent, -, h⟩ := bind_eq_ok.1 h
    cases h
    exact ⟨lgr, hlgr, hname⟩
  · cases h
    exact ⟨lgr, hlgr, hname⟩

theorem names_addRecorded {records first index next : Nat}
    (h : addRecorded file stream records axes forest first index = .ok (forest', next)) :
    ∃ name, NamedBy (file.loadNamed stream "LGR" (index - 1)) name ∧
      forest'.refinements.map Grid.name = forest.refinements.map Grid.name ++ [name] := by
  obtain ⟨dims, names, table, -, hnames, -, -, hinstall, -⟩ := addRecorded_eq_ok.1 h
  exact ⟨names.1, namedBy_recordedNames hnames, names_install hinstall⟩

theorem names_ofRecords (h : ofRecords file stream axes = .ok forest) :
    List.Forall₂ (fun index => NamedBy (file.loadNamed stream "LGR" (index - 1)))
      (List.range' 1 (file.catalog.count "DIMENS" - 1)) (forest.refinements.map Grid.name) := by
  obtain ⟨-, dims, table, next, -, -, hall⟩ := ofRecords_eq_ok.1 h
  have hstart : List.Forall₂ (fun index => NamedBy (file.loadNamed stream "LGR" (index - 1)))
      ([] : List Nat) ((ofMain (table.toGrid mainName 0 dims)).refinements.map Grid.name) := .nil
  exact foldlM_invariant_related
    (P := fun (seen : List Nat) (state : Forest × Nat) =>
      List.Forall₂ (fun index => NamedBy (file.loadNamed stream "LGR" (index - 1)))
        seen (state.1.refinements.map Grid.name))
    (fun seen a c b b' hsame hb hstep => by
      obtain rfl : a = c := hsame
      obtain ⟨name, hname, hnames⟩ := names_addRecorded hstep
      rw [hnames]
      exact List.rel_append hb (.cons hname .nil))
    (List.forall₂_same.2 fun _ _ => rfl) hstart hall

theorem named_gridsOf (h : gridsOf file stream axes = .ok forest) {i : Nat} {name : String}
    (hname : (forest.refinements.map Grid.name)[i]? = some name) :
    NamedBy (file.loadNamed stream "LGR" i) name := by
  unfold gridsOf at h
  split at h
  · obtain ⟨index, hindex, hnamed⟩ := exists_of_getElem? (names_ofRecords h) hname
    obtain ⟨hi, rfl⟩ := List.getElem?_eq_some_iff.1 hindex
    rwa [List.getElem_range', Nat.one_mul, Nat.add_sub_cancel_left] at hnamed
  · obtain ⟨part, hpart, k, hk, hstring⟩ := exists_of_getElem? (names_ofSections h) hname
    obtain ⟨e, he, hload⟩ := KeywordFile.loadFrom_eq_ok_iff.1 hk
    rw [Catalog.get?_block hpart] at he
    exact ⟨k, KeywordFile.loadFrom_eq_ok_iff.2 ⟨e, he, hload⟩, hstring⟩

/-- A refinement is found by the text that its name is without the blanks at the end of the text. -/
theorem Linked.refinementNamed?_eq_some {log : List Request} (h : forest.Linked log)
    (text : String) (id : Nat) : forest.refinementNamed? text = some id ↔
      1 ≤ id ∧ ∃ grid, forest.grid? id = some grid ∧
        grid.name = String.ofList (Text.trimEnd text.toList) :=
  h.named?_eq_some ..

/-- Every refinement of a forest that is built has the name that its `LGR` keyword gives and is
found by its number. By its name it is found if and only if that does not end in a blank; otherwise
the refinement is found, if there is one, whose name is the same without the blanks. -/
theorem lookups_of_build {applyAxes : Bool} (h : build file stream applyAxes = .ok forest)
    {id : Nat} (hid : 1 ≤ id) {grid : Grid} (hgrid : forest.grid? id = some grid) :
    NamedBy (file.loadNamed stream "LGR" (id - 1)) grid.name ∧
      forest.numbered? grid.number = some id ∧
      (forest.refinementNamed? grid.name = some id ↔ Text.endsInBlank grid.name = false) ∧
      ∀ other, forest.refinementNamed? grid.name = some other ↔
        1 ≤ other ∧ ∃ found, forest.grid? other = some found ∧
          found.name = String.ofList (Text.trimEnd grid.name.toList) := by
  obtain ⟨main, hgrown, -⟩ := grown_of_build h
  obtain ⟨log, hlinked⟩ := hgrown.linked
  obtain ⟨axes, grids, flag, hgrids, -, -, hforest⟩ := build_eq_ok h
  refine ⟨?_, (hlinked.numbered?_eq_some _ _).2 ⟨hid, grid, hgrid, rfl⟩, ?_,
    hlinked.refinementNamed?_eq_some grid.name⟩
  · obtain ⟨i, rfl⟩ := Nat.exists_eq_add_of_le' hid
    have hname : (grids.refinements.map Grid.name)[i]? = some grid.name := by
      rw [hforest] at hgrid
      rw [List.getElem?_map]
      exact congrArg (Option.map Grid.name) hgrid
    exact named_gridsOf hgrids hname
  · rw [hlinked.refinementNamed?_eq_some, ← Text.trimEnd_eq_self]
    constructor
    · rintro ⟨-, found, hfound, hname⟩
      obtain rfl := Option.some.inj (hgrid.symm.trans hfound)
      have hlist := congrArg String.toList hname
      rw [String.toList_ofList] at hlist
      exact hlist.symm
    · intro htrim
      exact ⟨hid, grid, hgrid, by rw [htrim, String.ofList_toList]⟩

/-- Two refinements, the second one named as the first one with a no-break space after it. By that
name the first one is found. -/
theorem lookups_of_build_noBreakSpace :
    let lgr (slot : Bytes) (h : slot.length = 1 * 8) : Keyword :=
      ⟨⟨"LGR", by decide⟩, .char, 1, slot, .inl h⟩
    let inner (name : String) (number : Int) : Refinement :=
      ⟨name, number, ⟨1, 1, 1⟩, .counting ⟨1, 1, 1⟩ none, [number], ""⟩
    let front := ofGrid 0 ⟨2, 1, 1⟩ (.counting ⟨2, 1, 1⟩ none)
    let parts := [ofRefinement [lgr [65, 32, 32, 32, 32, 32, 32, 32] rfl] (inner "A" 1),
      ofRefinement [lgr [65, 0xc2, 0xa0, 32, 32, 32, 32, 32] rfl] (inner "A\u00a0" 2)]
    ∃ file stream forest, KeywordFile.Holds file stream (front ++ parts.flatten) ∧
      build file stream false = .ok forest ∧
      ∃ grid, forest.grid? 2 = some grid ∧ grid.name = "A\u00a0" ∧
        Text.endsInBlank grid.name = true ∧ forest.refinementNamed? grid.name = some 1 ∧
        forest.numbered? grid.number = some 2 := by
  intro lgr inner front parts
  let b : Blueprint := ⟨0, ⟨2, 1, 1⟩, .counting ⟨2, 1, 1⟩ none, [inner "A" 1, inner "A\u00a0" 2]⟩
  have hshort : Naming (inner "A" 1) [lgr [65, 32, 32, 32, 32, 32, 32, 32] rfl] :=
    .outer rfl (by decide +kernel) rfl
  have hlong : Naming (inner "A\u00a0" 2) [lgr [65, 0xc2, 0xa0, 32, 32, 32, 32, 32] rfl] :=
    .outer rfl (by decide +kernel) rfl
  have hgrid {number : Int} (h : AreWords [number, 1, 1, 1]) :
      Grid.Writable number ⟨1, 1, 1⟩ (.counting ⟨1, 1, 1⟩ none) :=
    Grid.writable_counting ⟨by decide, by decide, by decide, h, by decide⟩
  have hinner {name : String} {number : Int} (h : AreWords [number, 1, 1, 1]) :
      (inner name number).Writable :=
    ⟨hgrid h, rfl, List.forall_mem_singleton.2 (h number List.mem_cons_self)⟩
  have hsections : StoreSections front parts b := {
    not_opened := by decide
    opened := List.forall_mem_cons.2 ⟨isSection_ofRefinement [] hshort (by decide),
      List.forall_mem_singleton.2 (isSection_ofRefinement [] hlong (by decide))⟩
    main := storeGrid_ofGrid [] [] (Grid.writable_counting (by decide)) (.inl rfl) (by decide)
      (by decide)
    refinements := .cons
      (storeRefinement_ofRefinement [] hshort (hinner (by decide)) (.inl rfl) (by decide))
      (.cons
        (storeRefinement_ofRefinement [] hlong (hinner (by decide)) (.inl rfl) (by decide))
        .nil) }
  obtain ⟨file, stream, hfile⟩ :=
    @KeywordFile.exists_holds (front ++ parts.flatten) .big (by decide)
  have hbuild := build_sections_eq hfile hsections (by decide) (by decide) (by decide) false
  obtain ⟨forest, hforest, grid, hgrid, hname, hfirst⟩ : ∃ forest,
      b.build (Keyword.first? "MAPAXES" front) false = .ok forest ∧ ∃ grid,
        forest.grid? 2 = some grid ∧ grid.name = "A\u00a0" ∧
          ∃ found, forest.grid? 1 = some found ∧ found.name = "A" :=
    ⟨_, rfl, _, rfl, rfl, _, rfl, rfl⟩
  rw [hforest] at hbuild
  obtain ⟨-, hnumbered, -, hother⟩ := lookups_of_build hbuild (by decide) hgrid
  obtain ⟨found, hfound, hshort⟩ := hfirst
  have htrim : String.ofList (Text.trimEnd grid.name.toList) = "A" := by
    rw [hname]
    decide +kernel
  exact ⟨file, stream, forest, hfile, hbuild, grid, hgrid, hname, by rw [hname]; decide +kernel,
    (hother 1).2 ⟨Nat.le_refl 1, found, hfound, hshort.trans htrim.symm⟩, hnumbered⟩

end Forest

end Reservoir
