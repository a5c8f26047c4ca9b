import Reservoir.Proofs.Grid.Install
import Mathlib.Data.List.Nodup
import Mathlib.Data.List.Induction

/-!
The links of a forest. The tables, the parents, the children and the cells that are refined all
say the same of every refinement; installing one keeps it so, and so does every run of requests,
whether they are accepted or refused.
-/

namespace Reservoir

open Outcome

theorem lookup_zipIdx_reverse {α : Type} [DecidableEq α] {xs : List α} (h : xs.Nodup) (x : α)
    (id : Nat) :
    (xs.zipIdx 1).reverse.lookup x = some id ↔ ∃ i, id = i + 1 ∧ xs[i]? = some x := by
  induction xs using List.reverseRecOn with
  | nil => simp
  | append_singleton xs last ih =>
    have hlast : last ∉ xs := fun hmem =>
      (List.nodup_append.1 h).2.2 last hmem last List.mem_cons_self rfl
    rw [List.zipIdx_append, List.reverse_append, List.zipIdx_singleton, List.reverse_singleton,
      List.singleton_append, List.lookup_cons]
    by_cases hx : x = last
    · subst hx
      simp only [beq_self_eq_true, Option.some.injEq]
      constructor
      · rintro rfl
        exact ⟨xs.length, Nat.add_comm _ _, List.getElem?_concat_length⟩
      · rintro ⟨i, rfl, hi⟩
        rw [List.getElem?_append] at hi
        split at hi
        · exact absurd (List.mem_of_getElem? hi) hlast
        · next hge =>
          have hzero : i - xs.length = 0 := by
            obtain ⟨hlt, -⟩ := List.getElem?_eq_some_iff.1 hi
            simpa using hlt
          omega
    · rw [beq_false_of_ne hx]
      simp only [ih (List.nodup_append.1 h).1]
      refine exists_congr fun i => and_congr_right fun _ => ?_
      rw [List.getElem?_append]
      split
      · rfl
      · next hge =>
        rw [List.getElem?_eq_none (Nat.le_of_not_lt hge)]
        cases hi : i - xs.length with
        | zero => simp [Ne.symm hx]
        | succ j => simp

namespace Forest

/-- All links agree. `log` are the requests that the refinements come from. -/
structure Linked (forest : Forest) (log : List Request) : Prop where
  byName_eq : forest.byName = ((forest.refinements.map Grid.name).zipIdx 1).reverse
  byNumber_eq : forest.byNumber = ((forest.refinements.map Grid.number).zipIdx 1).reverse
  nodup_names : (forest.refinements.map Grid.name).Nodup
  nodup_numbers : (forest.refinements.map Grid.number).Nodup
  number_ne_zero : ∀ grid ∈ forest.refinements, grid.number ≠ 0
  length_log : log.length = forest.refinements.length
  logged : ∀ i r, log[i]? = some r → ∃ grid p, forest.grid? (i + 1) = some grid ∧
    grid.name = r.grid.name ∧ grid.number = r.grid.number ∧
    r.hosts = grid.hosts.toList.map some ∧ grid.parent = some p ∧ p ≤ i ∧
    forest.parentNamed r.grid.name r.parent = .ok p
  parentOf_lt : ∀ id q, forest.parentOf id = some q → q < id
  children : ∀ q grid, forest.grid? q = some grid → ∀ id,
    grid.children.count id = if forest.parentOf id = some q then 1 else 0
  size_refinedBy : ∀ q grid, forest.grid? q = some grid → grid.refinedBy.size = grid.size
  refinedBy : ∀ q grid, forest.grid? q = some grid → ∀ h id,
    grid.refinedBy[h]? = some (some id) ↔ forest.parentOf id = some q ∧ h ∈ forest.hostsOf id

/-- A grid from which the parents lead to the main grid. -/
inductive Rooted (forest : Forest) : Nat → Prop where
  | main : Rooted forest 0
  | child {id q : Nat} (parent : forest.parentOf id = some q) (rooted : Rooted forest q) :
      Rooted forest id

theorem linked_ofMain {main : Grid} (hfresh : main.Fresh) (hroot : main.parent = none) :
    (ofMain main).Linked [] := by
  have hgrid : ∀ q grid, (ofMain main).grid? q = some grid → grid = main := by
    intro q grid h
    cases q with
    | zero => exact (Option.some.inj h).symm
    | succ q => cases h
  have hparent : ∀ id, (ofMain main).parentOf id = none := by
    intro id
    cases id with
    | zero => exact hroot
    | succ id => rfl
  constructor
  · rfl
  · rfl
  · exact List.nodup_nil
  · exact List.nodup_nil
  · intro grid h
    cases h
  · rfl
  · intro i r h
    cases h
  · intro id q h
    rw [hparent] at h
    cases h
  · intro q grid h id
    rw [hgrid q grid h, hfresh.children, hparent, if_neg (by simp)]
    rfl
  · intro q grid h
    rw [hgrid q grid h, hfresh.refinedBy, Array.size_replicate]
  · intro q grid h cell id
    rw [hgrid q grid h, hfresh.refinedBy, hparent, Array.getElem?_replicate]
    split
    · simp
    · simp

theorem lookup_eq_some_iff {α : Type} [DecidableEq α] {forest : Forest} {f : Grid → α}
    (hnodup : (forest.refinements.map f).Nodup) (x : α) (id : Nat) :
    ((forest.refinements.map f).zipIdx 1).reverse.lookup x = some id ↔
      1 ≤ id ∧ ∃ grid, forest.grid? id = some grid ∧ f grid = x := by
  rw [lookup_zipIdx_reverse hnodup]
  constructor
  · rintro ⟨i, rfl, hi⟩
    rw [List.getElem?_map] at hi
    obtain ⟨grid, hgrid, hkey⟩ := Option.map_eq_some_iff.1 hi
    exact ⟨Nat.le_add_left .., grid, hgrid, hkey⟩
  · rintro ⟨hid, grid, hgrid, rfl⟩
    obtain ⟨i, rfl⟩ := Nat.exists_eq_add_of_le' hid
    refine ⟨i, rfl, ?_⟩
    rw [List.getElem?_map]
    exact congrArg (Option.map f) hgrid

namespace Linked

variable {forest forest' : Forest} {log : List Request} {r : Request} {p : Nat} {parent : Grid}
  {cells : List Nat}

theorem named?_eq_some (h : forest.Linked log) (name : String) (id : Nat) :
    forest.named? name = some id ↔
      1 ≤ id ∧ ∃ grid, forest.grid? id = some grid ∧ grid.name = name := by
  rw [named?, h.byName_eq, lookup_eq_some_iff h.nodup_names]

theorem numbered?_eq_some (h : forest.Linked log) (number : Int) (id : Nat) :
    forest.numbered? number = some id ↔
      1 ≤ id ∧ ∃ grid, forest.grid? id = some grid ∧ grid.number = number := by
  rw [numbered?, h.byNumber_eq, lookup_eq_some_iff h.nodup_numbers]

theorem nodup_concat {α : Type} [DecidableEq α] {f : Grid → α} {x : α}
    (hnodup : (forest.refinements.map f).Nodup)
    (hnew : ((forest.refinements.map f).zipIdx 1).reverse.lookup x = none) :
    (forest.refinements.map f ++ [x]).Nodup := by
  refine List.nodup_append.2 ⟨hnodup, List.nodup_singleton x, fun y hy z hz => ?_⟩
  rintro rfl
  obtain ⟨i, hi⟩ := List.getElem?_of_mem hy
  rw [List.mem_singleton.1 hz] at hi
  have hfound := (lookup_zipIdx_reverse hnodup x (i + 1)).2 ⟨i, rfl, hi⟩
  rw [hnew] at hfound
  cases hfound

theorem parentOf_ne_new (h : forest.Linked log) (hi : forest.Installed r p parent cells forest')
    (id : Nat) : forest'.parentOf id ≠ some (forest.refinements.length + 1) := by
  rw [hi.parentOf_eq]
  split
  · intro hparent
    exact Nat.ne_of_lt hi.parent_lt (Option.some.inj hparent)
  · intro hparent
    have hbelow := h.parentOf_lt id _ hparent
    have hlast := lt_of_parentOf hparent
    omega

theorem children_install (h : forest.Linked log) (hfresh : r.grid.Fresh)
    (hi : forest.Installed r p parent cells forest') (q : Nat) (grid : Grid)
    (hgrid : forest'.grid? q = some grid) (id : Nat) :
    grid.children.count id = if forest'.parentOf id = some q then 1 else 0 := by
  have hnew := forest.parentOf_new
  rw [hi.grid?_eq] at hgrid
  split at hgrid
  · next hq =>
    cases hgrid
    rw [hq, if_neg (h.parentOf_ne_new hi id)]
    simp only [hfresh.children]
    rfl
  · next hq =>
    rw [hi.parentOf_eq]
    obtain ⟨old, hold, rfl⟩ := Option.map_eq_some_iff.1 hgrid
    have hcount := h.children q old hold id
    by_cases hqp : q = p
    · subst hqp
      rw [if_pos rfl]
      simp only [cover, List.count_append, hcount]
      by_cases hid : id = forest.refinements.length + 1
      · subst hid
        simp [hnew]
      · simp [hid, Ne.symm hid]
    · rw [if_neg hqp, hcount]
      by_cases hid : id = forest.refinements.length + 1
      · subst hid
        simp [hnew, Ne.symm hqp]
      · simp [hid]

theorem refinedBy_install (h : forest.Linked log) (hfresh : r.grid.Fresh)
    (hi : forest.Installed r p parent cells forest') (q : Nat) (grid : Grid)
    (hgrid : forest'.grid? q = some grid) (cell id : Nat) :
    grid.refinedBy[cell]? = some (some id) ↔
      forest'.parentOf id = some q ∧ cell ∈ forest'.hostsOf id := by
  have hnew := forest.parentOf_new
  rw [hi.grid?_eq] at hgrid
  split at hgrid
  · next hq =>
    cases hgrid
    have hfree : r.grid.refinedBy[cell]? ≠ some (some id) := by
      rw [hfresh.refinedBy, Array.getElem?_replicate]
      split
      · simp
      · simp
    rw [hq]
    exact ⟨fun hcell => absurd hcell hfree, fun hboth => absurd hboth.1 (h.parentOf_ne_new hi id)⟩
  · next hq =>
    rw [hi.parentOf_eq, hi.hostsOf_eq]
    obtain ⟨old, hold, rfl⟩ := Option.map_eq_some_iff.1 hgrid
    have hcells := h.refinedBy q old hold cell id
    by_cases hqp : q = p
    · subst hqp
      have hparent : old = parent := Option.some.inj (hold.symm.trans hi.parent_found)
      subst hparent
      rw [if_pos rfl]
      simp only [cover, getElem?_foldl_setIfInBounds]
      by_cases hmem : cell ∈ cells
      · have hfree := hi.hosts_free cell hmem
        have hsize : cell < old.refinedBy.size := (Array.getElem?_eq_some_iff.1 hfree).1
        have hother : ¬(forest.parentOf id = some q ∧ cell ∈ forest.hostsOf id) := by
          rw [← hcells, hfree]
          simp
        rw [if_pos ⟨hmem, hsize⟩]
        by_cases hid : id = forest.refinements.length + 1
        · simp [hid, hmem]
        · simp only [if_neg hid, iff_false_intro hother]
          simp [Ne.symm hid]
      · rw [if_neg (fun hboth => hmem hboth.1), hcells]
        by_cases hid : id = forest.refinements.length + 1
        · subst hid
          simp [hnew, hmem]
        · simp [hid]
    · rw [if_neg hqp, hcells]
      by_cases hid : id = forest.refinements.length + 1
      · subst hid
        simp [hnew, Ne.symm hqp]
      · simp [hid]

theorem logged_install (h : forest.Linked log) (hi : forest.Installed r p parent cells forest')
    (i : Nat) (r' : Request) (hr : (log ++ [r])[i]? = some r') :
    ∃ grid q, forest'.grid? (i + 1) = some grid ∧ grid.name = r'.grid.name ∧
      grid.number = r'.grid.number ∧ r'.hosts = grid.hosts.toList.map some ∧
      grid.parent = some q ∧ q ≤ i ∧ forest'.parentNamed r'.grid.name r'.parent = .ok q := by
  rw [List.getElem?_append, h.length_log] at hr
  split at hr
  · next hlt =>
    obtain ⟨grid, q, hgrid, hname, hnumber, hhosts, hparent, hq, hnamed⟩ := h.logged i r' hr
    obtain ⟨grid', hgrid', hname', hnumber', hhosts', hparent'⟩ :=
      hi.grid?_stable (q := i + 1) (by omega) hgrid
    refine ⟨grid', q, hgrid', hname'.trans hname, hnumber'.trans hnumber, ?_,
      hparent'.trans hparent, hq, hi.parentNamed_stable hnamed⟩
    rw [hhosts, hhosts']
  · next hge =>
    obtain ⟨hlt, hlast⟩ := List.getElem?_eq_some_iff.1 hr
    have hi' : i = forest.refinements.length := by
      simp only [List.length_singleton] at hlt
      omega
    subst hi'
    simp only [Nat.sub_self, List.getElem_cons_zero] at hlast
    subst hlast
    refine ⟨_, p, hi.grid?_new, rfl, rfl, hi.hosts_eq, rfl, Nat.lt_succ_iff.1 hi.parent_lt, ?_⟩
    exact hi.parentNamed_stable hi.parent_named

theorem size_refinedBy_install (h : forest.Linked log) (hfresh : r.grid.Fresh)
    (hi : forest.Installed r p parent cells forest') (q : Nat) (grid : Grid)
    (hgrid : forest'.grid? q = some grid) : grid.refinedBy.size = grid.size := by
  rw [hi.grid?_eq] at hgrid
  split at hgrid
  · cases hgrid
    simp only [hfresh.refinedBy, Array.size_replicate]
    rfl
  · obtain ⟨old, hold, rfl⟩ := Option.map_eq_some_iff.1 hgrid
    have hsize := h.size_refinedBy q old hold
    split
    · simp only [cover, size_foldl_setIfInBounds, hsize]
      rfl
    · exact hsize

theorem install (h : forest.Linked log) (hfresh : r.grid.Fresh)
    (hi : forest.Installed r p parent cells forest') : forest'.Linked (log ++ [r]) := by
  have hnames := hi.map_refinements (f := Grid.name) fun _ => rfl
  have hnumbers := hi.map_refinements (f := Grid.number) fun _ => rfl
  have hname_free := hi.name_free
  have hnumber_free := hi.number_free
  rw [named?, h.byName_eq] at hname_free
  rw [numbered?, h.byNumber_eq] at hnumber_free
  constructor
  · rw [hi.byName_eq, hnames, h.byName_eq, List.zipIdx_append, List.reverse_append,
      List.length_map, Nat.add_comm 1]
    rfl
  · rw [hi.byNumber_eq, hnumbers, h.byNumber_eq, List.zipIdx_append, List.reverse_append,
      List.length_map, Nat.add_comm 1]
    rfl
  · rw [hnames]
    exact nodup_concat h.nodup_names hname_free
  · rw [hnumbers]
    exact nodup_concat h.nodup_numbers hnumber_free
  · intro grid hgrid
    have hmem := List.mem_map_of_mem (f := Grid.number) hgrid
    rw [hnumbers] at hmem
    rcases List.mem_append.1 hmem with hold | hnew
    · obtain ⟨old, hold, hnumber⟩ := List.mem_map.1 hold
      rw [← hnumber]
      exact h.number_ne_zero old hold
    · rw [List.mem_singleton.1 hnew]
      exact hi.number_ne_zero
  · rw [List.length_append, hi.length_eq, h.length_log]
    rfl
  · exact h.logged_install hi
  · intro id q hparent
    rw [hi.parentOf_eq] at hparent
    split at hparent
    · next hid =>
      cases hparent
      rw [hid]
      exact hi.parent_lt
    · exact h.parentOf_lt id q hparent
  · exact h.children_install hfresh hi
  · exact h.size_refinedBy_install hfresh hi
  · exact h.refinedBy_install hfresh hi

theorem run (h : forest.Linked log) {rs : List Request} (hrs : ∀ r ∈ rs, r.grid.Fresh) :
    (forest.run rs).1.Linked (log ++ (forest.run rs).2) := by
  induction rs generalizing forest log with
  | nil =>
    rw [Forest.run, List.append_nil]
    exact h
  | cons r rs ih =>
    simp only [List.mem_cons, forall_eq_or_imp] at hrs
    unfold Forest.run
    split
    · next forest' hinstall =>
      obtain ⟨p, parent, cells, hi⟩ := installed_of_install hinstall
      have hback := ih (h.install hrs.1 hi) hrs.2
      rwa [List.append_assoc, List.singleton_append] at hback
    · exact ih h hrs.2

theorem parent_of_parentNamed {name given : String} (hq : forest.parentNamed name given = .ok p) :
    if given = "" ∨ given = mainName then p = 0 else forest.named? given = some p := by
  unfold parentNamed at hq
  split at hq
  · next hmain =>
    rw [if_pos hmain]
    cases hq
    rfl
  · next hmain =>
    rw [if_neg hmain]
    split at hq
    · next id hnamed =>
      cases hq
      exact hnamed
    · cases hq

theorem parentOf_of_grid? {id : Nat} {grid : Grid} (h : forest.grid? id = some grid) :
    forest.parentOf id = grid.parent := by
  rw [parentOf, h, Option.map_some, Option.join_some]

theorem refinedBy_iff (h : forest.Linked log) {q : Nat} {grid : Grid}
    (hgrid : forest.grid? q = some grid) (cell id : Nat) :
    grid.refinedBy[cell]? = some (some id) ↔
      ∃ child, forest.grid? id = some child ∧ child.parent = some q ∧ cell ∈ child.hosts := by
  rw [h.refinedBy q grid hgrid]
  cases hchild : forest.grid? id with
  | none => simp [parentOf, hchild]
  | some child => simp [parentOf, hostsOf, hchild]

theorem refinementOf_host (h : forest.Linked log) {q id : Nat} {grid child : Grid}
    (hgrid : forest.grid? q = some grid) (hchild : forest.grid? id = some child)
    (hparent : child.parent = some q) {cell : Nat} (hcell : cell ∈ child.hosts) :
    cell < grid.size ∧ grid.refinementOf cell = .ok (some id) := by
  have howner := (h.refinedBy_iff hgrid cell id).2 ⟨child, hchild, hparent, hcell⟩
  have hlt : cell < grid.size := by
    rw [← h.size_refinedBy q grid hgrid]
    exact (Array.getElem?_eq_some_iff.1 howner).1
  exact ⟨hlt, Grid.lookup_eq_ok.2 ⟨hlt, howner⟩⟩

/-- Going from parent to parent ends at the main grid. -/
theorem rooted (h : forest.Linked log) (id : Nat) (hid : id < forest.grids.length) :
    forest.Rooted id := by
  induction id using Nat.strongRecOn with
  | ind id ih =>
    cases id with
    | zero => exact .main
    | succ i =>
      have hlog : i < log.length := by
        rw [h.length_log]
        exact Nat.lt_of_succ_lt_succ hid
      obtain ⟨grid, p, hgrid, -, -, -, hparent, hp, -⟩ :=
        h.logged i log[i] (List.getElem?_eq_getElem hlog)
      have hof : forest.parentOf (i + 1) = some p := by
        rw [parentOf_of_grid? hgrid, hparent]
      exact .child hof (ih p (Nat.lt_succ_of_le hp) (by omega))

end Linked

/-- Whatever requests come, accepted or refused: the tables hold the refinements and nothing else,
every refinement hangs below an earlier grid, the one that its request names, and the cells that
grids mark as refined are the hosts of their children. -/
theorem links_agree {main : Grid} (hfresh : main.Fresh) (hroot : main.parent = none)
    {rs : List Request} (hrs : ∀ r ∈ rs, r.grid.Fresh) :
    ∃ forest log, (ofMain main).run rs = (forest, log) ∧
      ((∀ name id, forest.named? name = some id ↔
          1 ≤ id ∧ ∃ grid, forest.grid? id = some grid ∧ grid.name = name) ∧
        (∀ number id, forest.numbered? number = some id ↔
          1 ≤ id ∧ ∃ grid, forest.grid? id = some grid ∧ grid.number = number) ∧
        (forest.refinements.map Grid.name).Nodup ∧ (forest.refinements.map Grid.number).Nodup ∧
        ∀ grid ∈ forest.refinements, grid.number ≠ 0) ∧
      (log.length = forest.refinements.length ∧
        (∀ i r, log[i]? = some r → ∃ grid p, forest.grid? (i + 1) = some grid ∧
          grid.name = r.grid.name ∧ grid.number = r.grid.number ∧
          r.hosts = grid.hosts.toList.map some ∧ grid.parent = some p ∧ p < i + 1 ∧
          (if r.parent = "" ∨ r.parent = mainName then p = 0
            else forest.named? r.parent = some p) ∧
          ∀ q other, forest.grid? q = some other →
            other.children.count (i + 1) = if q = p then 1 else 0) ∧
        ∀ id, id < forest.grids.length → forest.Rooted id) ∧
      ∀ q grid, forest.grid? q = some grid →
        (∀ h id, grid.refinedBy[h]? = some (some id) ↔
          ∃ child, forest.grid? id = some child ∧ child.parent = some q ∧ h ∈ child.hosts) ∧
        ∀ id child, forest.grid? id = some child → child.parent = some q →
          (∀ h ∈ child.hosts, h < grid.size ∧ ∀ id' child', forest.grid? id' = some child' →
            child'.parent = some q → h ∈ child'.hosts → id' = id) ∧
          ∀ cell h, child.hostOf cell = .ok (some h) → grid.refinementOf h = .ok (some id) := by
  have hlinked := (linked_ofMain hfresh hroot).run hrs
  rw [List.nil_append] at hlinked
  refine ⟨_, _, rfl, ⟨hlinked.named?_eq_some, hlinked.numbered?_eq_some, hlinked.nodup_names,
    hlinked.nodup_numbers, hlinked.number_ne_zero⟩, ⟨hlinked.length_log, ?_, hlinked.rooted⟩, ?_⟩
  · intro i r hr
    obtain ⟨grid, p, hgrid, hname, hnumber, hhosts, hparent, hp, hnamed⟩ := hlinked.logged i r hr
    refine ⟨grid, p, hgrid, hname, hnumber, hhosts, hparent, Nat.lt_succ_of_le hp,
      Linked.parent_of_parentNamed hnamed, fun q other hother => ?_⟩
    rw [hlinked.children q other hother, Linked.parentOf_of_grid? hgrid, hparent]
    simp only [Option.some.injEq, eq_comm]
  · intro q grid hgrid
    refine ⟨hlinked.refinedBy_iff hgrid, fun id child hchild hparent => ⟨?_, ?_⟩⟩
    · intro h hh
      obtain ⟨hlt, howner⟩ := hlinked.refinementOf_host hgrid hchild hparent hh
      refine ⟨hlt, fun id' child' hchild' hparent' hh' => ?_⟩
      have howner' := (hlinked.refinementOf_host hgrid hchild' hparent' hh').2
      exact Option.some.inj (Except.ok.inj (howner'.symm.trans howner))
    · intro cell h hhost
      have hh : h ∈ child.hosts := by
        obtain ⟨_, -, hhost⟩ := bind_eq_ok.1 hhost
        exact Array.mem_of_getElem? (Except.ok.inj hhost)
      exact (hlinked.refinementOf_host hgrid hchild hparent hh).2

/-- Two cells, a refinement of one of them, a second one that wants the same cell, and one within
the first. -/
theorem links_agree_nested :
    let main := Grid.ofCells mainName 0 ⟨2, 1, 1⟩ [] none
    let outer : Request := ⟨Grid.ofCells "OUTER" 1 ⟨1, 1, 2⟩ [] none, [some 1, some 1], ""⟩
    let rival : Request := ⟨Grid.ofCells "RIVAL" 2 ⟨1, 1, 1⟩ [] none, [some 1], mainName⟩
    let inner : Request := ⟨Grid.ofCells "INNER" 3 ⟨1, 1, 1⟩ [] none, [some 0], "OUTER"⟩
    main.Fresh ∧ main.parent = none ∧ (∀ r ∈ [outer, rival, inner], r.grid.Fresh) ∧
      ∃ forest log, (ofMain main).run [outer, rival, inner] = (forest, log) ∧
        log.map (fun r => r.grid.name) = ["OUTER", "INNER"] ∧ forest.named? "INNER" = some 2 ∧
        forest.Rooted 2 := by
  intro main outer rival inner
  have hfresh : ∀ r ∈ [outer, rival, inner], r.grid.Fresh := by
    intro r hr
    simp only [List.mem_cons, List.not_mem_nil, or_false] at hr
    rcases hr with rfl | rfl | rfl
    · exact Grid.fresh_ofCells ..
    · exact Grid.fresh_ofCells ..
    · exact Grid.fresh_ofCells ..
  have hmain : main.Fresh := Grid.fresh_ofCells ..
  obtain ⟨forest, log, hrun, -, ⟨-, -, hrooted⟩, -⟩ := links_agree hmain rfl hfresh
  refine ⟨hmain, rfl, hfresh, forest, log, hrun, ?_, ?_, hrooted 2 ?_⟩
  · rw [show log = ((ofMain main).run [outer, rival, inner]).2 by rw [hrun]]
    rfl
  · rw [show forest = ((ofMain main).run [outer, rival, inner]).1 by rw [hrun]]
    rfl
  · rw [show forest = ((ofMain main).run [outer, rival, inner]).1 by rw [hrun]]
    exact Nat.lt_succ_self 2

end Forest

end Reservoir
