import Reservoir.Proofs.Grid.Layouts
import Reservoir.Proofs.Grid.Listed

/-!
The ends of connections. Every connection that is read joins cells that exist, in grids that are
found by their numbers. The main grid is found first; where it has the number 0 it is also the one
that 0 stands for, and every end is found by the tables of the forest.
-/

namespace Reservoir

open Outcome Keyword

namespace Connection

variable {sizes : Sizes} {dualPorosity : Bool}

/-- Both ends are cells of grids of a known size. -/
def Within (sizes : Sizes) (c : Connection) : Prop :=
  ∀ number cell, c.touches number cell → ∃ size, sizes number = some size ∧ cell < size

variable {file : KeywordFile} {stream : Bytes} {part : Catalog} {connections : List Connection}

theorem Listing.Within.connection {l : Listing} (h : l.Within sizes) :
    l.connection.Within sizes := by
  obtain ⟨⟨size₁, hsize₁, hrange₁⟩, size₂, hsize₂, hrange₂⟩ := h
  intro number cell htouches
  simp only [touches, Listing.connection, Bool.or_eq_true, Bool.and_eq_true, beq_iff_eq]
    at htouches
  rcases htouches with ⟨rfl, rfl⟩ | ⟨rfl, rfl⟩
  · exact ⟨size₁, hsize₁, by omega⟩
  · exact ⟨size₂, hsize₂, by omega⟩

theorem within_readAll (h : readAll file stream sizes dualPorosity = .ok connections) :
    ∀ c ∈ connections, c.Within sizes := by
  obtain ⟨listed, -, read, ⟨hwithin, rfl⟩, rfl⟩ := readAll_eq_ok.1 h
  intro c hc
  obtain ⟨l, hl, rfl⟩ := List.mem_map.1 (List.mem_mergeSort.1 hc)
  exact (hwithin l hl).connection

section Amalgamation

variable {ks : List Keyword} {first second : String} {a b : Keyword} {xs ys : List Int}

theorem loadNumbers_eq (hl : file.Lists stream part ks) (ha : Keyword.first? first ks = some a)
    (hxs : a.integers = .ok xs) (hb : Keyword.first? second ks = some b)
    (hys : b.integers = .ok ys) (hlength : xs.length = ys.length) :
    loadNumbers file stream part first second = .ok (xs.zip ys) := by
  simp only [loadNumbers, Forest.loadFrom_first hl ha, Forest.loadFrom_first hl hb, hxs, hys,
    if_pos hlength, ok_bind, pure_eq]

theorem readAmalgamation_eq (hl : file.Lists stream part ks) {opener : Keyword}
    {grid₁ grid₂ : Int} {rest : List Int} (hopener : Keyword.first? "NNCHEADA" ks = some opener)
    (hhead : opener.integers = .ok (grid₁ :: grid₂ :: rest))
    (ha : Keyword.first? "NNA1" ks = some a) (hxs : a.integers = .ok xs)
    (hb : Keyword.first? "NNA2" ks = some b) (hys : b.integers = .ok ys)
    (hlength : xs.length = ys.length) (index : Nat) :
    readAmalgamation file stream sizes dualPorosity index part =
      ofPairing sizes dualPorosity ⟨grid₁, grid₂, xs.zip ys⟩ := by
  simp only [readAmalgamation, Forest.loadFrom_first hl hopener, hhead, ok_bind,
    loadNumbers_eq hl ha hxs hb hys hlength]

end Amalgamation

end Connection

namespace Forest

variable {file : KeywordFile} {stream : Bytes} {forest : Forest}

/-- The grid that the ends of connections are checked against is the main grid, if that has the
number, and otherwise the one that the tables know by it. -/
theorem Linked.known_of_sizes {log : List Request} (h : forest.Linked log) {number : Int}
    {size : Nat} (hsize : forest.sizes number = some size) :
    (number = forest.main.number ∧ size = forest.main.size) ∨
      number ≠ forest.main.number ∧ number ≠ 0 ∧
        ∃ grid, forest.gridNumbered? number = some grid ∧ size = grid.size := by
  obtain ⟨grid, hfind, rfl⟩ := Option.map_eq_some_iff.1 hsize
  rw [grids, List.find?_cons] at hfind
  split at hfind
  · next hmain =>
    cases hfind
    exact .inl ⟨(beq_iff_eq.1 hmain).symm, rfl⟩
  · next hmain =>
    have hnumber : grid.number = number := by simpa using List.find?_some hfind
    have hmem := List.mem_of_find?_eq_some hfind
    have hzero : number ≠ 0 := hnumber ▸ h.number_ne_zero grid hmem
    obtain ⟨i, hi⟩ := List.getElem?_of_mem hmem
    have hgrid : forest.grid? (i + 1) = some grid := hi
    have hfound := (h.numbered?_eq_some number (i + 1)).2
      ⟨Nat.le_add_left .., grid, hgrid, hnumber⟩
    refine .inr ⟨fun heq => ?_, hzero, grid, ?_, rfl⟩
    · rw [heq, beq_self_eq_true] at hmain
      cases hmain
    · rw [gridNumbered?, if_neg hzero, hfound, Option.bind_some, hgrid]

/-- Both ends of every connection of a forest that is built are cells of grids of the forest: of
the main grid, if that has the number, and otherwise of the grid that is looked up by it. Where the
main section declares no number, all of them are cells of the grid that is looked up. -/
theorem endpoint_of_build {applyAxes : Bool} (h : build file stream applyAxes = .ok forest)
    {c : Connection} (hc : c ∈ forest.connections) {number : Int} {cell : Nat}
    (hend : c.touches number cell) :
    ∃ grid, cell < grid.size ∧ (number = forest.main.number → grid = forest.main) ∧
      (number = 0 → forest.main.number = 0) ∧
      (MainUnnumbered file stream ∨ number ≠ forest.main.number →
        forest.gridNumbered? number = some grid) := by
  obtain ⟨main, hgrown, hunnumbered⟩ := grown_of_build h
  obtain ⟨log, hlinked⟩ := hgrown.linked
  obtain ⟨axes, grids, flag, -, -, hread, hforest⟩ := build_eq_ok h
  have hwithin : c.Within forest.sizes := by
    rw [hforest]
    exact Connection.within_readAll hread c hc
  obtain ⟨size, hsize, hcell⟩ := hwithin number cell hend
  rcases hlinked.known_of_sizes hsize with ⟨hmain, rfl⟩ | ⟨hother, hzero, grid, hgrid, rfl⟩
  · refine ⟨forest.main, hcell, fun _ => rfl, fun hzero => hmain ▸ hzero, fun hknown => ?_⟩
    rcases hknown with hknown | hother
    · have hzero : number = 0 := by rw [hmain, hgrown.number_eq, hunnumbered hknown]
      rw [hzero, gridNumbered?, if_pos rfl]
    · exact absurd hmain hother
  · exact ⟨grid, hcell, fun hmain => absurd hmain hother, fun heq => absurd heq hzero,
      fun _ => hgrid⟩

/-- A main grid that declares the number 5, and a connection of it to its refinement. Nothing is
looked up by 5, though the end there is a cell of the main grid. -/
theorem endpoint_of_build_declared :
    let inner : Refinement := ⟨"LOCAL", 1, ⟨1, 1, 1⟩, .counting ⟨1, 1, 1⟩ none, [1], ""⟩
    let front := ofGrid 5 ⟨1, 1, 2⟩ (.counting ⟨1, 1, 2⟩ none)
    let part := ofRefinement [text ⟨"LGR", by decide⟩ "LOCAL" (by decide)] inner
    let joins := [words ⟨"NNCHEADA", by decide⟩ [5, 1], words ⟨"NNA1", by decide⟩ [2],
      words ⟨"NNA2", by decide⟩ [1]]
    ∃ file stream forest, KeywordFile.Holds file stream (front ++ part ++ joins) ∧
      build file stream true = .ok forest ∧ forest.connections = [⟨5, 1, 1, 0, 0⟩] ∧
      (∃ grid, 1 < grid.size ∧ grid = forest.main) ∧ forest.gridNumbered? 5 = none ∧
      ∃ grid, 0 < grid.size ∧ forest.gridNumbered? 1 = some grid := by
  intro inner front part joins
  let b : Blueprint := ⟨5, ⟨1, 1, 2⟩, .counting ⟨1, 1, 2⟩ none, [inner]⟩
  have hinner : inner.Writable := ⟨Grid.writable_counting (by decide), rfl, by decide⟩
  have hnaming : Naming inner [text ⟨"LGR", by decide⟩ "LOCAL" (by decide)] :=
    .outer rfl (by decide +kernel) rfl
  obtain ⟨file, stream, hfile⟩ :=
    @KeywordFile.exists_holds (front ++ part ++ joins) .big (by decide)
  have hsections : StoreSections front [part ++ joins] b := {
    not_opened := by decide
    opened := List.forall_mem_singleton.2 (isSection_ofRefinement _ hnaming (by decide))
    main := storeGrid_ofGrid [] [] (Grid.writable_counting (by decide)) (.inr (by decide))
      (by decide) (by decide)
    refinements := .cons (storeRefinement_ofRefinement _ hnaming hinner (.inl rfl) (by decide))
      .nil }
  obtain ⟨hfront, -⟩ := @KeywordFile.Lists.sections file stream _ "LGR" front [part ++ joins]
    hfile.lists hsections.not_opened hsections.opened
  obtain ⟨block, hblocks, hblock⟩ := hfile.lists.exists_block (by decide : "NNCHEADA" ∉ _)
    ⟨_, rfl, by decide⟩
  have hgrids := gridsOf_sections_eq hfile hsections none
  obtain ⟨grids, hforest, hsize, hsize', hnumber, hfive⟩ : ∃ grids, b.forest none = .ok grids ∧
      grids.sizes 5 = some 2 ∧ grids.sizes 1 = some 1 ∧ grids.main.number = 5 ∧
      grids.gridNumbered? 5 = none := ⟨_, rfl, rfl, rfl, rfl, rfl⟩
  obtain ⟨flag, hflag⟩ := isDualPorosity_eq_ok hfile (fun k hk => by cases hk)
  have hpart : Connection.readAmalgamation file stream grids.sizes flag 0 block =
      .ok [⟨5, 1, 1, 0, 0⟩] := by
    rw [Connection.readAmalgamation_eq hblock rfl (integers_words _ (by decide)) rfl
      (integers_words _ (by decide)) rfl (integers_words _ (by decide)) rfl]
    simp [Connection.ofPairing, Connection.ofNumbers, Connection.isFracture, Connection.endpoint,
      hsize, hsize']
  have hread : Connection.readAll file stream grids.sizes flag = .ok [⟨5, 1, 1, 0, 0⟩] := by
    simp [Connection.readAll, @blocks_eq_nil file stream _ hfile "NNCHEAD" (by decide), hblocks,
      hpart]
  have hbuild : build file stream true =
      .ok { grids with connections := [⟨5, 1, 1, 0, 0⟩], mapAxes := none } := by
    have haxes : file.loadOptional stream (file.catalog.head "LGR") "MAPAXES" = .ok none :=
      hfront.loadOptional_eq "MAPAXES"
    simp only [build_bind, haxes, axesOf, ok_bind, if_true, hgrids, hforest, hflag, hread]
  obtain ⟨main, hmain, hmain', -⟩ := @endpoint_of_build file stream _ true hbuild _
    List.mem_cons_self 5 1 rfl
  obtain ⟨other, hother, -, -, hknown⟩ := @endpoint_of_build file stream _ true hbuild _
    List.mem_cons_self 1 0 rfl
  exact ⟨file, stream, _, hfile, hbuild, rfl, ⟨main, hmain, hmain' hnumber.symm⟩, hfive,
    ⟨other, hother, hknown (.inr (by rw [hnumber]; decide))⟩⟩

end Forest

end Reservoir
