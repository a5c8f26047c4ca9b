import Mathlib.Data.List.Perm.Subperm
import Mathlib.Data.List.Forall2
import Mathlib.Data.List.Nodup
import Reservoir.Proofs.Grid.CellOrder

/-!
What records tell of the cells of a grid. A table is filled by the records one after another, and
where they tell of different cells it is the same in any order. As many records as there are cells,
which leave no cell without a host, tell of each cell once.
-/

namespace Reservoir

open Outcome

section Related

variable {α β γ : Type} {R : α → β → Prop} {xs : List α} {ys : List β}

theorem Outcome.foldlM_eq_ok {f : γ → α → Outcome γ} {add : γ → β → γ}
    (hf : ∀ state x next, f state x = Except.ok next ↔ ∃ y, R x y ∧ next = add state y)
    {start last : γ} :
    xs.foldlM f start = Except.ok last ↔
      ∃ ys, List.Forall₂ R xs ys ∧ last = ys.foldl add start := by
  induction xs generalizing start with
  | nil => simp [pure_eq, eq_comm]
  | cons x xs ih =>
    rw [List.foldlM_cons, bind_eq_ok]
    simp only [hf, ih, List.forall₂_cons_left_iff]
    constructor
    · rintro ⟨next, ⟨y, hy, rfl⟩, ys, hys, rfl⟩
      exact ⟨y :: ys, ⟨y, ys, hy, hys, rfl⟩, rfl⟩
    · rintro ⟨-, ⟨y, ys, hy, hys, rfl⟩, rfl⟩
      exact ⟨_, ⟨y, hy, rfl⟩, ys, hys, rfl⟩

end Related

def KeywordFile.Addresses (file : KeywordFile) (stream : Bytes) (dims : Dims) (record g : Nat)
    (tail : List Int) : Prop :=
  ∃ coords p, file.loadNamed stream "COORDS" record = .ok coords ∧
    coords.integers = .ok ((p.i + 1 : Int) :: (p.j + 1 : Int) :: (p.k + 1 : Int) :: tail) ∧
    dims.Contains p ∧ dims.number p = g ∧ g < dims.size

theorem KeywordFile.Addresses.lt {file : KeywordFile} {stream : Bytes} {dims : Dims}
    {record g : Nat} {tail : List Int} (h : file.Addresses stream dims record g tail) :
    g < dims.size := by
  obtain ⟨coords, p, -, -, -, -, hlt⟩ := h
  exact hlt

namespace CellTable

theorem cellNumber_eq_ok {dims : Dims} {record g : Nat} {values : List Int} :
    cellNumber dims record values = .ok g ↔ ∃ (p : Place) (tail : List Int),
      values = (p.i + 1 : Int) :: (p.j + 1 : Int) :: (p.k + 1 : Int) :: tail ∧
        dims.Contains p ∧ dims.number p = g := by
  constructor
  · intro h
    unfold cellNumber at h
    split at h
    · next i j k tail =>
      dsimp only at h
      split at h
      · next hplace =>
        obtain ⟨hi, hj, hk, hcontains⟩ := hplace
        refine ⟨_, tail, ?_, hcontains, Except.ok.inj h⟩
        have hback : ∀ n : Int, 0 < n → ((n - 1).toNat : Int) + 1 = n := fun n hn => by omega
        rw [hback i hi, hback j hj, hback k hk]
      · cases h
    · cases h
  · rintro ⟨p, tail, rfl, hcontains, rfl⟩
    have hpos : ∀ n : Nat, 0 < (n + 1 : Int) := fun n => by omega
    have hback : ∀ n : Nat, ((n + 1 : Int) - 1).toNat = n := fun n => by omega
    simp only [cellNumber, hpos, hback, true_and, hcontains, if_true]

theorem checkLength_eq_ok {record count : Nat} {refinement : Bool} :
    checkLength record count refinement = .ok () ↔
      count = 7 ∨ (!refinement ∧ (count = 4 ∨ count = 5)) := by
  unfold checkLength
  split
  · next h => exact iff_of_true rfl h
  · next h => exact iff_of_false (by rintro ⟨⟩) h

/-- What a record tells of its cell; a host only if the record has a value for it. -/
structure Telling where
  cell : Nat
  corners : Cell
  activity : Int
  host : Option (Option Nat)

def tell (table : CellTable) (t : Telling) : CellTable where
  cells := table.cells.setIfInBounds t.cell t.corners
  activity := table.activity.setIfInBounds t.cell t.activity
  hosts :=
    match t.host with
    | some host => table.hosts.setIfInBounds t.cell host
    | none => table.hosts

section Reading

variable (file : KeywordFile) (stream : Bytes) (dims : Dims) (refinement : Bool)
  (axes : Option MapAxes)

/-- A record is accepted and tells this. Four values or five are enough but for refinements. -/
structure Tells (record : Nat) (t : Telling) : Prop where
  coords : ∃ tail, file.Addresses stream dims record t.cell tail ∧
    (tail.length = 4 ∨ (!refinement ∧ (tail.length = 1 ∨ tail.length = 2))) ∧
    t.activity = tail.getD 1 1 ∧ t.host = tail[2]?.map Forest.hostCell
  corners : ∃ corners xyz, file.loadNamed stream "CORNERS" record = .ok corners ∧
    corners.count = 24 ∧ corners.doubles = .ok xyz ∧
    t.corners = cellOf axes (xyz.map Double.toFloat).toArray

theorem addRecord_eq_ok (table : CellTable) (record : Nat) (table' : CellTable) :
    addRecord file stream dims refinement axes table record = .ok table' ↔
      ∃ t, Tells file stream dims refinement axes record t ∧ table' = table.tell t := by
  constructor
  · intro h
    obtain ⟨coords, hcoords, h⟩ := bind_eq_ok.1 h
    obtain ⟨corners, hcorners, h⟩ := bind_eq_ok.1 h
    obtain ⟨⟨⟩, hcount, h⟩ := bind_eq_ok.1 h
    obtain ⟨values, hvalues, h⟩ := bind_eq_ok.1 h
    obtain ⟨done, hlength, h⟩ := bind_eq_ok.1 h
    obtain ⟨g, hg, h⟩ := bind_eq_ok.1 h
    have hlt : g < dims.size := by
      by_contra hout
      rw [if_neg hout] at h
      cases h
    rw [if_pos hlt] at h
    obtain ⟨xyz, hxyz, h⟩ := bind_eq_ok.1 h
    cases h
    obtain ⟨p, tail, rfl, hcontains, hnumber⟩ := cellNumber_eq_ok.1 hg
    rw [Grid.checkCount_eq_ok] at hcount
    rw [checkLength_eq_ok] at hlength
    refine ⟨⟨g, _, _, _⟩,
      ⟨⟨tail, ⟨coords, p, hcoords, hvalues, hcontains, hnumber, hlt⟩, ?_, rfl, rfl⟩,
        ⟨corners, xyz, hcorners, hcount, hxyz, rfl⟩⟩, ?_⟩
    · simpa using hlength
    · simp only [set, tell, List.getElem?_cons_succ, List.getD_cons_succ]
      cases tail[2]? <;> rfl
  · rintro ⟨⟨g, cell, activity, host⟩,
      ⟨⟨tail, ⟨coords, p, hcoords, hvalues, hcontains, hnumber, hlt⟩, hlength, hactivity,
        hhost⟩, ⟨corners, xyz, hcorners, hcount, hxyz, hcell⟩⟩, rfl⟩
    dsimp only at hnumber hactivity hhost hcell
    subst hnumber hactivity hhost hcell
    have hcheck : checkLength record (tail.length + 1 + 1 + 1) refinement = .ok () :=
      checkLength_eq_ok.2 (by simpa using hlength)
    have hcell := @cellNumber_eq_ok dims record _ _ |>.2 ⟨p, tail, rfl, hcontains, rfl⟩
    simp only [addRecord, hcoords, hcorners, Grid.checkCount_eq_ok.2 hcount, hvalues,
      List.length_cons, hcheck, hcell, if_pos hlt, hxyz, ok_bind, pure_eq]
    simp only [set, tell, List.getElem?_cons_succ, List.getD_cons_succ]
    cases tail[2]? <;> rfl

theorem read_eq_ok {first count : Nat} {table : CellTable} :
    read file stream dims first count refinement axes = .ok table ↔
      ∃ ts, List.Forall₂ (Tells file stream dims refinement axes) (List.range' first count) ts ∧
        table = ts.foldl tell (empty dims.size) :=
  foldlM_eq_ok (addRecord_eq_ok file stream dims refinement axes)

end Reading

theorem size_foldl_tell (ts : List Telling) (table : CellTable) :
    (ts.foldl tell table).cells.size = table.cells.size ∧
      (ts.foldl tell table).activity.size = table.activity.size ∧
      (ts.foldl tell table).hosts.size = table.hosts.size := by
  induction ts generalizing table with
  | nil => exact ⟨rfl, rfl, rfl⟩
  | cons t ts ih =>
    rw [List.foldl_cons, (ih _).1, (ih _).2.1, (ih _).2.2]
    refine ⟨Array.size_setIfInBounds .., Array.size_setIfInBounds .., ?_⟩
    simp only [tell]
    cases t.host with
    | none => rfl
    | some host => exact Array.size_setIfInBounds ..

section Addressed

variable {file file' : KeywordFile} {stream stream' : Bytes} {dims : Dims} {refinement : Bool}
  {axes : Option MapAxes} {records : List Nat} {ts : List Telling}

theorem unique_of_addresses {record g g' : Nat} {tail tail' : List Int}
    (h : file.Addresses stream dims record g tail)
    (h' : file.Addresses stream dims record g' tail') : g = g' ∧ tail = tail' := by
  obtain ⟨coords, ⟨i, j, k⟩, hcoords, hvalues, -, rfl, -⟩ := h
  obtain ⟨coords', ⟨i', j', k'⟩, hcoords', hvalues', -, rfl, -⟩ := h'
  obtain rfl := Except.ok.inj (hcoords.symm.trans hcoords')
  have hsame := Except.ok.inj (hvalues.symm.trans hvalues')
  simp only [List.cons.injEq, add_left_inj, Int.natCast_inj] at hsame
  obtain ⟨rfl, rfl, rfl, rfl⟩ := hsame
  exact ⟨rfl, rfl⟩

end Addressed

end CellTable

end Reservoir
