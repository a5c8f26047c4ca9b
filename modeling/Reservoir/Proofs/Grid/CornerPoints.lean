import Mathlib.Tactic.IntervalCases
import Reservoir.Proofs.Grid.Numbering
import Reservoir.Proofs.Grid.Install
import Reservoir.Grid.Pillars

/-!
Cells read from pillars and depths. Arrays with the values that the dimensions ask for give the
cells of all places; and since every depth belongs to some corner, fewer depths give no grid at all.
-/

namespace Reservoir

open Outcome

variable {dims : Dims}

theorem cellAt_eq_ok {nx ny : Nat} {pillars depths : Array Float} {p : Place} {cell : Cell} :
    cellAt nx ny pillars depths p = .ok cell ↔
      ∀ c (h : c < 8), cornerAt nx ny pillars depths p c = .ok cell[c] := by
  constructor
  · intro h
    obtain ⟨c₀, h₀, h⟩ := bind_eq_ok.1 h
    obtain ⟨c₁, h₁, h⟩ := bind_eq_ok.1 h
    obtain ⟨c₂, h₂, h⟩ := bind_eq_ok.1 h
    obtain ⟨c₃, h₃, h⟩ := bind_eq_ok.1 h
    obtain ⟨c₄, h₄, h⟩ := bind_eq_ok.1 h
    obtain ⟨c₅, h₅, h⟩ := bind_eq_ok.1 h
    obtain ⟨c₆, h₆, h⟩ := bind_eq_ok.1 h
    obtain ⟨c₇, h₇, h⟩ := bind_eq_ok.1 h
    cases h
    intro c hc
    interval_cases c <;> assumption
  · intro h
    simp only [cellAt, h 0 (by decide), h 1 (by decide), h 2 (by decide), h 3 (by decide),
      h 4 (by decide), h 5 (by decide), h 6 (by decide), h 7 (by decide), ok_bind, pure_eq]
    refine congrArg Except.ok (Vector.ext fun c hc => ?_)
    interval_cases c <;> rfl

namespace Grid

def Arrays.corner (arrays : Arrays) (dims : Dims) (p : Place) (c : Nat) : Point :=
  let pillars := (arrays.pillars.map Double.toFloat).toArray
  let start := pillarRank dims.nx (p.i + c % 4 % 2) (p.j + c % 4 / 2)
  pointOnPillar (pointAt pillars start) (pointAt pillars (start + 3))
    ((arrays.depths.map Double.toFloat).toArray.getD (depthRank dims.nx dims.ny p c) 0)

def Arrays.cellAt (arrays : Arrays) (dims : Dims) (g : Nat) : Cell :=
  Vector.ofFn fun c => arrays.corner dims (dims.nth g) c.val

/-- There is a value for each pillar and each depth, and words count them. -/
structure Arrays.Fill (arrays : Arrays) (dims : Dims) : Prop where
  pillars : arrays.pillars.length = dims.pillarCount
  depths : arrays.depths.length = dims.depthCount
  pillarCount_lt : dims.pillarCount < 2 ^ 64
  depthCount_lt : dims.depthCount < 2 ^ 64

theorem Arrays.Fill.count_lt {arrays : Arrays} (h : arrays.Fill dims) : dims.count < 2 ^ 64 := by
  have hdepths := h.depthCount_lt
  rw [dims.depthCount_eq] at hdepths
  omega

theorem Arrays.Fill.size_eq {arrays : Arrays} (h : arrays.Fill dims) : dims.size = dims.count :=
  Dims.size_eq h.count_lt

theorem Arrays.Fill.cornerAt_eq {arrays : Arrays} (h : arrays.Fill dims) {p : Place}
    (hp : dims.Contains p) {c : Nat} (hc : c < 8) :
    cornerAt dims.nx dims.ny (arrays.pillars.map Double.toFloat).toArray
      (arrays.depths.map Double.toFloat).toArray p c = .ok (arrays.corner dims p c) := by
  have hpillar := Dims.pillarRank_add_six_le hp c
  have hdepth := Dims.depthRank_lt hp hc
  have hstart : pillarIndex dims.nx (p.i + c % 4 % 2) (p.j + c % 4 / 2) =
      pillarRank dims.nx (p.i + c % 4 % 2) (p.j + c % 4 / 2) :=
    wrap_of_lt (Nat.lt_of_le_of_lt (by omega) h.pillarCount_lt)
  have hindex : depthIndex dims.nx dims.ny p c = depthRank dims.nx dims.ny p c :=
    wrap_of_lt (Nat.lt_trans hdepth h.depthCount_lt)
  have hthere : depthRank dims.nx dims.ny p c <
      (arrays.depths.map Double.toFloat).toArray.size := by
    rwa [List.size_toArray, List.length_map, h.depths]
  have hroom : pillarRank dims.nx (p.i + c % 4 % 2) (p.j + c % 4 / 2) + 6 ≤
      (arrays.pillars.map Double.toFloat).toArray.size := by
    rwa [List.size_toArray, List.length_map, h.pillars]
  simp only [cornerAt, hstart, hindex, Array.getElem?_eq_getElem hthere, if_pos hroom,
    Arrays.corner, Array.getD_eq_getD_getElem?, Option.getD_some]

theorem Arrays.Fill.cellAt_eq {arrays : Arrays} (h : arrays.Fill dims) {g : Nat}
    (hg : g < dims.count) :
    Reservoir.cellAt dims.nx dims.ny (arrays.pillars.map Double.toFloat).toArray
      (arrays.depths.map Double.toFloat).toArray (dims.nth g) = .ok (arrays.cellAt dims g) := by
  refine cellAt_eq_ok.2 fun c hc => ?_
  rw [h.cornerAt_eq (Dims.contains_nth hg) hc, Arrays.cellAt, Vector.getElem_ofFn]

theorem readCells_eq {read : Nat → Outcome Cell} {f : Nat → Cell} {left : Nat}
    {cells : Array Cell} (h : ∀ g < cells.size + left, read g = .ok (f g)) :
    readCells read left cells =
      .ok (cells.toList ++ (List.range' cells.size left).map f).toArray := by
  induction left generalizing cells with
  | zero => simp [readCells]
  | succ left ih =>
    have hback := @ih (cells.push (f cells.size)) fun g hg =>
      h g (by rw [Array.size_push] at hg; omega)
    rw [readCells, h _ (by omega), ok_bind, hback, List.range'_succ, Array.size_push,
      Array.toList_push, List.map_cons, List.append_assoc, List.singleton_append]

theorem size_readCells {read : Nat → Outcome Cell} {left : Nat} {cells all : Array Cell}
    (h : readCells read left cells = .ok all) : all.size = cells.size + left := by
  induction left generalizing cells with
  | zero =>
    cases h
    rfl
  | succ left ih =>
    obtain ⟨cell, -, h⟩ := bind_eq_ok.1 h
    rw [ih h, Array.size_push, Nat.add_assoc, Nat.add_comm 1]

theorem exists_readCells_iff {read : Nat → Outcome Cell} {left : Nat} {cells : Array Cell} :
    (∃ all, readCells read left cells = .ok all) ↔
      ∀ g, cells.size ≤ g → g < cells.size + left → ∃ cell, read g = .ok cell := by
  induction left generalizing cells with
  | zero =>
    refine iff_of_true ⟨cells, rfl⟩ fun g hle hlt => absurd hlt (Nat.not_lt.2 hle)
  | succ left ih =>
    constructor
    · rintro ⟨all, h⟩ g hle hlt
      obtain ⟨cell, hread, h⟩ := bind_eq_ok.1 h
      rcases Nat.eq_or_lt_of_le hle with rfl | hlt'
      · exact ⟨cell, hread⟩
      · exact ih.1 ⟨all, h⟩ g (by rwa [Array.size_push]) (by rw [Array.size_push]; omega)
    · intro h
      obtain ⟨cell, hread⟩ := h cells.size (Nat.le_refl _) (by omega)
      obtain ⟨all, hall⟩ := (@ih (cells.push cell)).2 fun g hle hlt =>
        h g (by rw [Array.size_push] at hle; omega) (by rw [Array.size_push] at hlt; omega)
      exact ⟨all, by rw [readCells, hread, ok_bind, hall]⟩

def described (name : String) (number : Int) (dims : Dims) (arrays : Arrays)
    (axes : Option MapAxes) : Grid :=
  ofCells name number dims
    ((List.range dims.count).map fun g => (arrays.cellAt dims g).map (onMap axes)) arrays.activity

theorem ofArrays_eq {arrays : Arrays} (h : arrays.Fill dims) (name : String) (number : Int)
    (axes : Option MapAxes) :
    ofArrays name number dims arrays axes = .ok (described name number dims arrays axes) := by
  have hread : ∀ g < (#[] : Array Cell).size + dims.count,
      readCell dims (arrays.pillars.map Double.toFloat).toArray
        (arrays.depths.map Double.toFloat).toArray axes g =
        .ok ((arrays.cellAt dims g).map (onMap axes)) := by
    intro g hg
    rw [readCell, h.cellAt_eq (by simpa using hg), ok_bind, pure_eq]
  simp only [ofArrays, readCells_eq hread, ok_bind, pure_eq, List.nil_append, List.size_toArray,
    List.length_nil, ← List.range_eq_range', described]

variable {name : String} {number : Int} {axes : Option MapAxes} {arrays : Arrays} {grid : Grid}

theorem ofArrays_eq_ok (h : ofArrays name number dims arrays axes = .ok grid) :
    ∃ cells : List Cell, cells.length = dims.count ∧
      grid = ofCells name number dims cells arrays.activity ∧
      (arrays.depths.length < 2 ^ 64 → dims.depthCount ≤ arrays.depths.length) := by
  obtain ⟨cells, hcells, h⟩ := bind_eq_ok.1 h
  cases h
  refine ⟨cells.toList, ?_, rfl, fun hword => ?_⟩
  · rw [Array.length_toList, size_readCells hcells, List.size_toArray, List.length_nil,
      Nat.zero_add]
  · -- The depth behind the last one belongs to some corner, which cannot be read.
    by_contra hfew
    obtain ⟨⟨p, c⟩, ⟨hp, hc⟩, hrank⟩ := dims.bijOn_depthRank.surjOn (Nat.lt_of_not_le hfew)
    have hg : dims.rank p < (#[] : Array Cell).size + dims.count := by
      simpa using Dims.rank_lt hp
    obtain ⟨cell, hread⟩ :=
      exists_readCells_iff.1 ⟨cells, hcells⟩ (dims.rank p) (Nat.zero_le _) hg
    obtain ⟨plain, hplain, -⟩ := bind_eq_ok.1 hread
    rw [Dims.nth_rank hp] at hplain
    have hcorner := cellAt_eq_ok.1 hplain c hc
    have hindex : depthIndex dims.nx dims.ny p c = arrays.depths.length := by
      rw [depthIndex, show depthRank dims.nx dims.ny p c = _ from hrank, wrap_of_lt hword]
    simp [cornerAt, hindex] at hcorner

/-- Whether there is a grid does not depend on the axes. -/
theorem exists_ofArrays (h : ofArrays name number dims arrays axes = .ok grid)
    (axes' : Option MapAxes) : ∃ grid', ofArrays name number dims arrays axes' = .ok grid' := by
  obtain ⟨cells, hcells, -⟩ := bind_eq_ok.1 h
  obtain ⟨cells', hcells'⟩ := (@exists_readCells_iff (readCell dims
      (arrays.pillars.map Double.toFloat).toArray (arrays.depths.map Double.toFloat).toArray axes')
      dims.count #[]).2 fun g hle hlt => by
    obtain ⟨cell, hread⟩ := exists_readCells_iff.1 ⟨cells, hcells⟩ g hle hlt
    obtain ⟨plain, hplain, -⟩ := bind_eq_ok.1 hread
    exact ⟨_, by rw [readCell, hplain, ok_bind]; rfl⟩
  exact ⟨ofCells name number dims cells'.toList arrays.activity, by
    simp only [ofArrays, hcells', ok_bind, pure_eq]⟩

theorem fresh_ofArrays (h : ofArrays name number dims arrays axes = .ok grid) : grid.Fresh := by
  obtain ⟨cells, -, rfl, -⟩ := ofArrays_eq_ok h
  exact fresh_ofCells ..

theorem parent_ofArrays (h : ofArrays name number dims arrays axes = .ok grid) :
    grid.parent = none := by
  obtain ⟨cells, -, rfl, -⟩ := ofArrays_eq_ok h
  rfl

end Grid

end Reservoir
