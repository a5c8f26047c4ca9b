import Mathlib.Order.Bounds.Basic
import Mathlib.Data.Set.Image
import Reservoir.Proofs.Grid.CellSearch
import Reservoir.Proofs.Grid.Layouts
import Reservoir.Proofs.Grid.RecordRanges

/-!
The box around the hosts of a refinement. Every refinement has cells and a host for each of them,
and hosts are cells of the parent; so in every forest that is made the box of a refinement holds all
of its hosts, and each of its sides touches one of them.
-/

namespace Reservoir

open Outcome Keyword

structure Extremes (xs : Set Nat) (low high : Nat) : Prop where
  least : IsLeast xs low
  greatest : IsGreatest xs high

namespace Extremes

variable {xs : Set Nat} {low high : Nat}

theorem insert (h : Extremes xs low high) (x : Nat) :
    Extremes (insert x xs) (min low x) (max high x) := by
  rw [Nat.min_comm, Nat.max_comm]
  exact ⟨h.least.insert x, h.greatest.insert x⟩

end Extremes

/-- The least box around some places: on each axis it goes from the first of them to the last. -/
structure IsBox (ps : Set Place) (low high : Place) : Prop where
  i : Extremes (Place.i '' ps) low.i high.i
  j : Extremes (Place.j '' ps) low.j high.j
  k : Extremes (Place.k '' ps) low.k high.k

def Place.AtMost (p q : Place) : Prop := p.i ≤ q.i ∧ p.j ≤ q.j ∧ p.k ≤ q.k

namespace IsBox

variable {ps : Set Place} {low high p : Place}

theorem insert (h : IsBox ps low high) (p : Place) :
    IsBox (insert p ps) ⟨min low.i p.i, min low.j p.j, min low.k p.k⟩
      ⟨max high.i p.i, max high.j p.j, max high.k p.k⟩ := by
  constructor
  · exact Set.image_insert_eq ▸ h.i.insert p.i
  · exact Set.image_insert_eq ▸ h.j.insert p.j
  · exact Set.image_insert_eq ▸ h.k.insert p.k

theorem within (h : IsBox ps low high) (hp : p ∈ ps) : low.AtMost p ∧ p.AtMost high :=
  have hi := Set.mem_image_of_mem Place.i hp
  have hj := Set.mem_image_of_mem Place.j hp
  have hk := Set.mem_image_of_mem Place.k hp
  ⟨⟨h.i.least.2 hi, h.j.least.2 hj, h.k.least.2 hk⟩,
    ⟨h.i.greatest.2 hi, h.j.greatest.2 hj, h.k.greatest.2 hk⟩⟩

theorem contains (h : IsBox ps low high) {d : Dims} (hps : ∀ p ∈ ps, d.Contains p) :
    low.AtMost high ∧ d.Contains high := by
  obtain ⟨p, hp, hi⟩ := h.i.greatest.1
  obtain ⟨q, hq, hj⟩ := h.j.greatest.1
  obtain ⟨r, hr, hk⟩ := h.k.greatest.1
  obtain ⟨hlow, hhigh⟩ := h.within hp
  exact ⟨⟨Nat.le_trans hlow.1 hhigh.1, Nat.le_trans hlow.2.1 hhigh.2.1,
      Nat.le_trans hlow.2.2 hhigh.2.2⟩,
    hi ▸ (hps p hp).1, hj ▸ (hps q hq).2.1, hk ▸ (hps r hr).2.2⟩

theorem foldl (h : IsBox ps low high) (rest : List Place) :
    let box := rest.foldl (fun (low, high) p =>
      ((⟨min low.i p.i, min low.j p.j, min low.k p.k⟩ : Place),
        (⟨max high.i p.i, max high.j p.j, max high.k p.k⟩ : Place))) (low, high)
    IsBox (ps ∪ {p | p ∈ rest}) box.1 box.2 := by
  induction rest generalizing ps low high with
  | nil =>
    simp only [List.not_mem_nil, Set.ofPred_false, Set.union_empty]
    exact h
  | cons p rest ih =>
    have hset : ps ∪ {q | q ∈ p :: rest} = Insert.insert p ps ∪ {q | q ∈ rest} := by
      ext q
      simp [or_left_comm, or_assoc]
    rw [hset]
    exact ih (h.insert p)

end IsBox

namespace Grid

variable {child parent : Grid}

end Grid

namespace Forest

variable {file : KeywordFile} {stream : Bytes} {axes : Option MapAxes} {forest forest' : Forest}

def AllHosted (forest : Forest) : Prop :=
  ∀ id grid, forest.grid? (id + 1) = some grid → grid.hosts.size = grid.size

theorem AllHosted.install {grid : Grid} {hosts : List (Option Nat)} {parent : String}
    (hall : forest.AllHosted) (h : forest.install grid hosts parent = .ok forest')
    (hlength : hosts.length = grid.size) : forest'.AllHosted := by
  obtain ⟨p, parentGrid, cells, hi⟩ :=
    @installed_of_install forest forest' ⟨grid, hosts, parent⟩ h
  intro id found hfound
  rw [hi.grid?_eq] at hfound
  split at hfound
  · cases hfound
    have hcells : hosts = cells.map some := hi.hosts_eq
    rwa [hcells, List.length_map] at hlength
  · obtain ⟨old, hold, rfl⟩ := Option.map_eq_some_iff.1 hfound
    have hkept := hall id old hold
    split
    · exact hkept
    · exact hkept

theorem AllHosted.addSection {part : Catalog} {index : Nat} (hall : forest.AllHosted)
    (h : addSection file stream axes forest part index = .ok forest') : forest'.AllHosted := by
  obtain ⟨name, parent, grid, hosts, -, -, ⟨k, values, hk, hcount, hvalues, rfl⟩, hinstall⟩ :=
    addSection_eq_ok h
  refine hall.install hinstall ?_
  rw [List.length_map, Keyword.length_integers (KeywordFile.whole_of_loadFrom hk) hvalues,
    Grid.checkCount_eq_ok.1 hcount]

theorem AllHosted.addRecorded {records first next index : Nat} (hall : forest.AllHosted)
    (h : addRecorded file stream records axes forest first index = .ok (forest', next)) :
    forest'.AllHosted := by
  obtain ⟨dims, names, table, hdims, -, -, hread, hinstall, -⟩ := addRecorded_eq_ok.1 h
  refine hall.install hinstall ?_
  obtain ⟨ts, -, rfl⟩ := (CellTable.read_eq_ok ..).1 hread
  rw [Array.length_toList, (CellTable.size_foldl_tell ..).2.2, CellTable.empty,
    Array.size_replicate]
  rfl

theorem allHosted_ofMain (main : Grid) : (ofMain main).AllHosted := by
  intro id grid hgrid
  cases hgrid

theorem allHosted_gridsOf (h : gridsOf file stream axes = .ok forest) : forest.AllHosted := by
  unfold gridsOf at h
  split at h
  · obtain ⟨-, dims, table, next, -, -, hall⟩ := ofRecords_eq_ok.1 h
    exact foldlM_invariant (P := fun state : Forest × Nat => state.1.AllHosted)
      (fun _ _ _ hstate => hstate.addRecorded) (allHosted_ofMain _) hall
  · obtain ⟨main, -, hall⟩ := bind_eq_ok.1 h
    exact foldlM_invariant (fun _ _ _ hforest => hforest.addSection) (allHosted_ofMain main) hall

/-- However a forest is made, its links agree and its refinements have hosts. -/
theorem Made.linked (h : forest.Made) : (∃ log, forest.Linked log) ∧ forest.AllHosted := by
  cases h with
  | @keywords dims pillars depths activity stored _ made =>
    obtain ⟨hpos, arrays, -, found, -, main, hmain, rfl⟩ := ofKeywords_eq_ok.1 made
    have hstart := Grown.start (Grid.fresh_ofArrays hmain) (Grid.parent_ofArrays hmain)
    exact ⟨(hstart.with_connections found []).linked, allHosted_ofMain _⟩
  | file made =>
    obtain ⟨main, hgrown, -⟩ := grown_of_build made
    obtain ⟨axes, grids, flag, hgrids, -, -, hforest⟩ := build_eq_ok made
    refine ⟨hgrown.linked, fun id grid hgrid => ?_⟩
    rw [hforest] at hgrid
    exact allHosted_gridsOf hgrids id grid hgrid

end Forest

end Reservoir
