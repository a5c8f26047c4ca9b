import Reservoir.Proofs.Grid.Layouts
import Reservoir.Proofs.Grid.Listed
import Reservoir.Proofs.Grid.RecordRanges
import Reservoir.Proofs.Stream.Aligned
import Reservoir.Proofs.Summary.Parameters

/-!
Records in another order. A file whose cell records are exchanged within the grids that take them,
and which is otherwise the same, is built to the same forest.
-/

namespace Reservoir

open Outcome Keyword

def recordNames : List String := ["COORDS", "CORNERS"]

/-- Keywords of the same name, which are the same unless they belong to the record of a cell. -/
def SameButRecords (k k' : Keyword) : Prop :=
  k.name.val = k'.name.val ∧ (k.name.val ∉ recordNames → k = k')

theorem SameButRecords.refl (k : Keyword) : SameButRecords k k := ⟨rfl, fun _ => rfl⟩

namespace KeywordFile

end KeywordFile

theorem sameButRecords_keywords {rs rs' : List CellRecord} (h : ∀ r ∈ rs, r.Named)
    (h' : ∀ r ∈ rs', r.Named) (hlength : rs.length = rs'.length) :
    List.Forall₂ SameButRecords (rs.flatMap CellRecord.keywords)
      (rs'.flatMap CellRecord.keywords) := by
  have hpair : List.Forall₂ (fun r r' : CellRecord => r.Named ∧ r'.Named) rs rs' := by
    rw [List.forall₂_iff_get]
    exact ⟨hlength, fun i hi hi' => ⟨h _ (List.get_mem rs _), h' _ (List.get_mem rs' _)⟩⟩
  clear h h' hlength
  induction hpair with
  | nil => exact .nil
  | @cons r r' rs rs' head tail ih =>
    obtain ⟨hr, hr'⟩ := head
    have hcoords : SameButRecords r.coords r'.coords :=
      ⟨hr.coords.trans hr'.coords.symm, fun hname => absurd (hr.coords ▸ (by decide)) hname⟩
    have hcorners : SameButRecords r.corners r'.corners :=
      ⟨hr.corners.trans hr'.corners.symm, fun hname => absurd (hr.corners ▸ (by decide)) hname⟩
    exact .cons hcoords (.cons hcorners ih)

namespace RecordedFile

structure SameGrids (f f' : RecordedFile) : Prop where
  dimens : f.dimens = f'.dimens
  axes : f.axes = f'.axes
  records : f.records.length = f'.records.length
  refinements : List.Forall₂ (fun r r' : RecordedRefinement => r.lgr = r'.lgr ∧
    r.dimens = r'.dimens ∧ r.records.length = r'.records.length) f.refinements f'.refinements

variable {f f' : RecordedFile}

theorem SameGrids.keywords (hgrids : f.SameGrids f') (h : f.Named) (h' : f'.Named) :
    List.Forall₂ SameButRecords f.keywords f'.keywords := by
  have hrefl : ∀ ks, List.Forall₂ SameButRecords ks ks :=
    fun ks => List.forall₂_same.2 fun k _ => .refl k
  refine List.rel_append (List.rel_append ?_
    (sameButRecords_keywords h.main.records h'.main.records hgrids.records)) ?_
  · rw [hgrids.dimens, hgrids.axes]
    exact hrefl _
  · refine List.rel_flatten (List.forall₂_map_left_iff.2 (List.forall₂_map_right_iff.2 ?_))
    obtain ⟨hcount, hpairs⟩ := List.forall₂_iff_get.1 hgrids.refinements
    refine List.forall₂_iff_get.2 ⟨hcount, fun i hi hi' => ?_⟩
    obtain ⟨hlgr, hdimens, hlength⟩ := hpairs i hi hi'
    have hr := h.refinements _ (List.get_mem f.refinements ⟨i, hi⟩)
    have hr' := h'.refinements _ (List.get_mem f'.refinements ⟨i, hi'⟩)
    rw [RecordedRefinement.keywords, RecordedRefinement.keywords, hlgr, hdimens]
    exact .cons (.refl _) (.cons (.refl _)
      (sameButRecords_keywords hr.grid.records hr'.grid.records hlength))

end RecordedFile

namespace Connection

variable {changed : List String} {file file' : KeywordFile} {stream stream' : Bytes}
  {part part' : Catalog}

end Connection

namespace Forest

variable {file file' : KeywordFile} {stream stream' : Bytes} {part part' : Catalog}
  {σ : Nat → Nat} {axes : Option MapAxes} {records : Nat} {forest forest' last : Forest}

theorem attributed_of_build (hkind : hasCellRecords file = true) {applyAxes : Bool}
    (h : build file stream applyAxes = .ok forest) :
    ∃ next, Attributed file stream (if applyAxes then forest.mapAxes else none)
      (file.catalog.count "COORDS") forest next := by
  obtain ⟨axes, grids, flag, connections, -, hgrids, -, -, rfl⟩ := build_eq_ok_iff.1 h
  rw [gridsOf, if_pos hkind] at hgrids
  obtain ⟨next, hattributed⟩ := attributed_ofRecords hgrids
  exact ⟨next, hattributed.next_eq, hattributed.enough, hattributed.main, hattributed.refinements⟩

end Forest

end Reservoir
