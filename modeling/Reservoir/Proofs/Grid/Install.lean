import Reservoir.Proofs.Outcome
import Reservoir.Grid.Forest

/-!
One installation of a refinement: when it is accepted, and the forest after it seen through the
links of its grids. Everything that later modules know of `Forest.install` is said here.
-/

namespace Reservoir

open Outcome

theorem Dims.check_eq_ok {d : Dims} {g : Nat} : d.check g = .ok () ↔ g < d.size := by
  unfold check
  split <;> simp_all

namespace Grid

theorem lookup_eq_ok {α : Type} {grid : Grid} {values : Array α} {g : Nat} {x : α} :
    grid.lookup values g = .ok x ↔ g < grid.size ∧ values[g]? = some x := by
  constructor
  · intro h
    obtain ⟨⟨⟩, hcheck, h⟩ := bind_eq_ok.1 h
    split at h
    · next found hfound =>
      cases h
      exact ⟨Dims.check_eq_ok.1 hcheck, hfound⟩
    · cases h
  · rintro ⟨hlt, hfound⟩
    simp only [lookup, Dims.check_eq_ok.2 hlt, ok_bind, hfound, pure_eq]

/-- A grid that nothing was attached to: no children, and no cell refined. -/
structure Fresh (grid : Grid) : Prop where
  children : grid.children = []
  refinedBy : grid.refinedBy = Array.replicate grid.size none

theorem fresh_ofCells (name : String) (number : Int) (dims : Dims) (cells : List Cell)
    (activity : Option (List Int)) : (ofCells name number dims cells activity).Fresh :=
  ⟨rfl, rfl⟩

end Grid

theorem size_foldl_setIfInBounds {α : Type} (f : Nat → α) (places : List Nat) (xs : Array α) :
    (places.foldl (fun xs h => xs.setIfInBounds h (f h)) xs).size = xs.size := by
  induction places generalizing xs with
  | nil => rfl
  | cons place places ih => rw [List.foldl_cons, ih, Array.size_setIfInBounds]

theorem getElem?_foldl_setIfInBounds {α : Type} (f : Nat → α) (places : List Nat) (xs : Array α)
    (h : Nat) :
    (places.foldl (fun xs h => xs.setIfInBounds h (f h)) xs)[h]? =
      if h ∈ places ∧ h < xs.size then some (f h) else xs[h]? := by
  induction places generalizing xs with
  | nil => simp
  | cons place places ih =>
    rw [List.foldl_cons, ih, Array.size_setIfInBounds, Array.getElem?_setIfInBounds]
    by_cases hmem : h ∈ places ∧ h < xs.size
    · rw [if_pos hmem, if_pos ⟨List.mem_cons_of_mem _ hmem.1, hmem.2⟩]
    · rw [if_neg hmem]
      by_cases heq : place = h
      · subst heq
        by_cases hsize : place < xs.size
        · simp [hsize]
        · simp [hsize]
      · have hiff : (h ∈ place :: places ∧ h < xs.size) ↔ (h ∈ places ∧ h < xs.size) := by
          simp [Ne.symm heq]
        rw [if_neg heq, if_neg (fun hcons => hmem (hiff.1 hcons))]

namespace Forest

/-- What a caller asks for: a grid, the cells that host its cells, and the name of its parent. -/
structure Request where
  grid : Grid
  hosts : List (Option Nat)
  parent : String

/-- The forest after requests, and the ones that were accepted. A refused request leaves the
forest as it was. -/
def run (forest : Forest) : List Request → Forest × List Request
  | [] => (forest, [])
  | r :: rs =>
    match forest.install r.grid r.hosts r.parent with
    | .ok forest' => ((forest'.run rs).1, r :: (forest'.run rs).2)
    | .error _ => forest.run rs

def parentOf (forest : Forest) (id : Nat) : Option Nat :=
  ((forest.grid? id).map Grid.parent).join

def hostsOf (forest : Forest) (id : Nat) : List Nat :=
  ((forest.grid? id).map fun grid => grid.hosts.toList).getD []

theorem claimHosts_eq_ok {forest : Forest} {name : String} {parent : Grid}
    {hosts : List (Option Nat)} {cells : List Nat}
    (h : forest.claimHosts name parent hosts = .ok cells) :
    hosts = cells.map some ∧ ∀ cell ∈ cells, parent.refinedBy[cell]? = some none := by
  induction hosts generalizing cells with
  | nil =>
    cases h
    exact ⟨rfl, by simp⟩
  | cons host hosts ih =>
    unfold claimHosts at h
    split at h
    · cases h
    · cases h
    · next cell hfound =>
      obtain ⟨rest, hrest, h⟩ := bind_eq_ok.1 h
      cases h
      obtain ⟨c, hc, hfound⟩ := Option.bind_eq_some_iff.1 hfound
      obtain ⟨owner, howner, hpair⟩ := Option.map_eq_some_iff.1 hfound
      cases hpair
      obtain ⟨hhosts, hfree⟩ := ih hrest
      refine ⟨?_, ?_⟩
      · rw [hc, hhosts, List.map_cons]
      · intro cell hcell
        rcases List.mem_cons.1 hcell with rfl | hcell
        · exact howner
        · exact hfree cell hcell

theorem grid?_modify (forest : Forest) (id : Nat) (f : Grid → Grid) (q : Nat) :
    (forest.modify id f).grid? q =
      (forest.grid? q).map fun grid => if q = id then f grid else grid := by
  cases id with
  | zero =>
    cases q with
    | zero => rfl
    | succ q => simp [modify, grid?, grids]
  | succ id =>
    cases q with
    | zero => rfl
    | succ q =>
      simp only [modify, grid?, grids, List.getElem?_cons_succ, List.getElem?_modify,
        Nat.succ.injEq]
      by_cases hq : q = id
      · simp [hq]
      · simp [hq, Ne.symm hq]

/-- All that an accepted installation checks and does. -/
structure Installed (forest : Forest) (r : Request) (p : Nat) (parent : Grid) (cells : List Nat)
    (forest' : Forest) : Prop where
  name_free : forest.named? r.grid.name = none
  number_free : forest.numbered? r.grid.number = none
  number_ne_zero : r.grid.number ≠ 0
  parent_named : forest.parentNamed r.grid.name r.parent = .ok p
  parent_found : forest.grid? p = some parent
  hosts_eq : r.hosts = cells.map some
  hosts_free : ∀ cell ∈ cells, parent.refinedBy[cell]? = some none
  main_eq : forest'.main = (forest.modify p (cover (forest.refinements.length + 1) cells)).main
  refinements_eq : forest'.refinements =
    (forest.modify p (cover (forest.refinements.length + 1) cells)).refinements
      ++ [{ r.grid with parent := some p, hosts := cells.toArray }]
  byName_eq : forest'.byName = (r.grid.name, forest.refinements.length + 1) :: forest.byName
  byNumber_eq : forest'.byNumber =
    (r.grid.number, forest.refinements.length + 1) :: forest.byNumber

theorem modify_byName (forest : Forest) (id : Nat) (f : Grid → Grid) :
    (forest.modify id f).byName = forest.byName := by
  cases id <;> rfl

theorem modify_byNumber (forest : Forest) (id : Nat) (f : Grid → Grid) :
    (forest.modify id f).byNumber = forest.byNumber := by
  cases id <;> rfl

theorem length_modify (forest : Forest) (id : Nat) (f : Grid → Grid) :
    (forest.modify id f).refinements.length = forest.refinements.length := by
  cases id with
  | zero => rfl
  | succ id => exact List.length_modify ..

theorem installed_of_install {forest forest' : Forest} {r : Request}
    (h : forest.install r.grid r.hosts r.parent = .ok forest') :
    ∃ p parent cells, forest.Installed r p parent cells forest' := by
  unfold install at h
  split at h
  · cases h
  · next hname =>
    split at h
    · cases h
    · next hnumber =>
      obtain ⟨p, hp, h⟩ := bind_eq_ok.1 h
      obtain ⟨parent, hparent, h⟩ := bind_eq_ok.1 h
      obtain ⟨cells, hcells, h⟩ := bind_eq_ok.1 h
      cases h
      obtain ⟨hhosts, hfree⟩ := claimHosts_eq_ok hcells
      rw [not_or, Option.not_isSome_iff_eq_none] at hnumber
      have hfound : forest.grid? p = some parent := by
        unfold grid at hparent
        split at hparent
        · next hgrid => cases hparent; exact hgrid
        · cases hparent
      exact ⟨p, parent, cells, Option.not_isSome_iff_eq_none.1 hname, hnumber.2, hnumber.1, hp,
        hfound, hhosts, hfree, rfl, rfl, by rw [modify_byName], by rw [modify_byNumber]⟩

theorem grid?_eq_none {forest : Forest} {q : Nat} (h : forest.refinements.length < q) :
    forest.grid? q = none :=
  List.getElem?_eq_none h

theorem lt_of_parentOf {forest : Forest} {id q : Nat} (h : forest.parentOf id = some q) :
    id < forest.refinements.length + 1 := by
  refine Nat.lt_of_not_le fun hge => ?_
  rw [parentOf, grid?_eq_none (by omega)] at h
  cases h

theorem parentOf_new (forest : Forest) :
    forest.parentOf (forest.refinements.length + 1) = none := by
  rw [parentOf, grid?_eq_none (Nat.lt_succ_self _)]
  rfl

namespace Installed

variable {forest forest' : Forest} {r : Request} {p : Nat} {parent : Grid} {cells : List Nat}

theorem parent_lt (h : forest.Installed r p parent cells forest') :
    p < forest.refinements.length + 1 := by
  refine Nat.lt_of_not_le fun hge => ?_
  have hfound := h.parent_found
  rw [grid?_eq_none (by omega)] at hfound
  cases hfound

theorem length_eq (h : forest.Installed r p parent cells forest') :
    forest'.refinements.length = forest.refinements.length + 1 := by
  rw [h.refinements_eq, List.length_append, length_modify]
  rfl

theorem grid?_eq (h : forest.Installed r p parent cells forest') (q : Nat) :
    forest'.grid? q =
      if q = forest.refinements.length + 1 then
        some { r.grid with parent := some p, hosts := cells.toArray }
      else (forest.grid? q).map fun grid =>
        if q = p then cover (forest.refinements.length + 1) cells grid else grid := by
  have hgrids : forest'.grids =
      (forest.modify p (cover (forest.refinements.length + 1) cells)).grids
        ++ [{ r.grid with parent := some p, hosts := cells.toArray }] := by
    rw [grids, grids, h.main_eq, h.refinements_eq, List.cons_append]
  have hlength : (forest.modify p (cover (forest.refinements.length + 1) cells)).grids.length =
      forest.refinements.length + 1 := by
    rw [grids, List.length_cons, length_modify]
  rw [grid?, hgrids, List.getElem?_append, hlength]
  rcases Nat.lt_trichotomy q (forest.refinements.length + 1) with hlt | rfl | hgt
  · rw [if_pos hlt, if_neg (by omega), ← grid?_modify]
    rfl
  · rw [if_neg (by omega), if_pos rfl, Nat.sub_self]
    rfl
  · rw [if_neg (by omega), if_neg (by omega), grid?_eq_none (by omega)]
    exact List.getElem?_eq_none (by simp; omega)

theorem grid?_new (h : forest.Installed r p parent cells forest') :
    forest'.grid? (forest.refinements.length + 1) =
      some { r.grid with parent := some p, hosts := cells.toArray } := by
  rw [h.grid?_eq, if_pos rfl]

theorem map_grid?_of_ne {α : Type} {f : Grid → α} (h : forest.Installed r p parent cells forest')
    (hf : ∀ grid, f (cover (forest.refinements.length + 1) cells grid) = f grid) {q : Nat}
    (hq : q ≠ forest.refinements.length + 1) :
    (forest'.grid? q).map f = (forest.grid? q).map f := by
  rw [h.grid?_eq, if_neg hq, Option.map_map]
  refine congrArg (Option.map · _) (funext fun grid => ?_)
  simp only [Function.comp_apply]
  split
  · exact hf grid
  · rfl

/-- A grid may get a child, and keeps all that it was installed with. -/
theorem grid?_stable (h : forest.Installed r p parent cells forest') {q : Nat} {grid : Grid}
    (hq : q ≠ forest.refinements.length + 1) (hgrid : forest.grid? q = some grid) :
    ∃ grid', forest'.grid? q = some grid' ∧ grid'.name = grid.name ∧
      grid'.number = grid.number ∧ grid'.hosts = grid.hosts ∧ grid'.parent = grid.parent := by
  rw [h.grid?_eq, if_neg hq, hgrid]
  refine ⟨_, rfl, ?_⟩
  split
  · exact ⟨rfl, rfl, rfl, rfl⟩
  · exact ⟨rfl, rfl, rfl, rfl⟩

theorem map_refinements {α : Type} {f : Grid → α} (h : forest.Installed r p parent cells forest')
    (hf : ∀ grid, f (cover (forest.refinements.length + 1) cells grid) = f grid) :
    forest'.refinements.map f =
      forest.refinements.map f ++ [f { r.grid with parent := some p, hosts := cells.toArray }] := by
  rw [h.refinements_eq, List.map_append, List.map_singleton]
  congr 1
  cases p with
  | zero => rfl
  | succ p =>
    apply List.ext_getElem?
    intro i
    simp only [modify, List.getElem?_map, List.getElem?_modify]
    split
    · simp [hf, Function.comp_def]
    · simp

theorem map_grids {α : Type} {f : Grid → α} (h : forest.Installed r p parent cells forest')
    (hf : ∀ grid, f (cover (forest.refinements.length + 1) cells grid) = f grid) :
    forest'.grids.map f =
      forest.grids.map f ++ [f { r.grid with parent := some p, hosts := cells.toArray }] := by
  have hmain : (forest'.grid? 0).map f = (forest.grid? 0).map f :=
    h.map_grid?_of_ne hf (Nat.zero_ne_add_one _)
  rw [grids, grids, List.map_cons, List.map_cons, h.map_refinements hf, List.cons_append]
  exact congrArg (· :: _) (Option.some.inj hmain)

theorem forall_grids {P : Grid → Prop} (h : forest.Installed r p parent cells forest')
    (hcover : ∀ grid, P grid → P (cover (forest.refinements.length + 1) cells grid))
    (hnew : P { r.grid with parent := some p, hosts := cells.toArray })
    (hall : ∀ grid ∈ forest.grids, P grid) : ∀ grid ∈ forest'.grids, P grid := by
  intro grid hgrid
  obtain ⟨id, hid⟩ := List.mem_iff_getElem?.1 hgrid
  rw [← grid?, h.grid?_eq] at hid
  split at hid
  · cases hid
    exact hnew
  · obtain ⟨old, hold, rfl⟩ := Option.map_eq_some_iff.1 hid
    have hkept := hall old (List.mem_of_getElem? hold)
    split
    · exact hcover old hkept
    · exact hkept

theorem parentOf_eq (h : forest.Installed r p parent cells forest') (id : Nat) :
    forest'.parentOf id =
      if id = forest.refinements.length + 1 then some p else forest.parentOf id := by
  split
  · next hid => rw [parentOf, hid, h.grid?_new, Option.map_some, Option.join_some]
  · next hid =>
    rw [parentOf, h.map_grid?_of_ne (fun _ => rfl) hid]
    rfl

theorem hostsOf_eq (h : forest.Installed r p parent cells forest') (id : Nat) :
    forest'.hostsOf id =
      if id = forest.refinements.length + 1 then cells else forest.hostsOf id := by
  split
  · next hid => rw [hostsOf, hid, h.grid?_new, Option.map_some, Option.getD_some]
  · next hid =>
    rw [hostsOf, h.map_grid?_of_ne (fun _ => rfl) hid]
    rfl

theorem named?_eq (h : forest.Installed r p parent cells forest') (name : String) :
    forest'.named? name =
      if name = r.grid.name then some (forest.refinements.length + 1) else forest.named? name := by
  rw [named?, h.byName_eq, List.lookup_cons]
  by_cases hname : name = r.grid.name
  · simp [hname]
  · have hbeq : (name == r.grid.name) = false := beq_false_of_ne hname
    rw [if_neg hname, hbeq]
    rfl

theorem parentNamed_stable (h : forest.Installed r p parent cells forest') {name given : String}
    {q : Nat} (hq : forest.parentNamed name given = .ok q) :
    forest'.parentNamed name given = .ok q := by
  unfold parentNamed at hq ⊢
  split at hq
  · next hmain => rw [if_pos hmain]; exact hq
  · next hmain =>
    rw [if_neg hmain]
    cases hnamed : forest.named? given with
    | none => rw [hnamed] at hq; cases hq
    | some id =>
      rw [hnamed] at hq
      have hne : given ≠ r.grid.name := by
        rintro rfl
        rw [h.name_free] at hnamed
        cases hnamed
      rw [h.named?_eq, if_neg hne, hnamed]
      exact hq

end Installed

end Forest

end Reservoir
