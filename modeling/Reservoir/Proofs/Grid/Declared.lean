import Reservoir.Proofs.Grid.Endpoints

/-!
The connections that a file declares. A built forest has them all, save the ones of fractures,
sorted by their ends, and those with the same ends stay in the order of the file.
-/

namespace Reservoir

open Outcome Keyword

section Sorting

variable {α κ : Type} [LinearOrder κ]

theorem filter_append_of_sorted {f : α → κ} {xs : List α}
    (h : xs.Pairwise fun a b => f a ≤ f b) (k : κ) :
    xs = xs.filter (f · < k) ++ xs.filter (f · = k) ++ xs.filter (k < f ·) := by
  induction xs with
  | nil => rfl
  | cons x xs ih =>
    obtain ⟨hx, hxs⟩ := List.pairwise_cons.1 h
    have hbefore : k ≤ f x → xs.filter (f · < k) = [] := fun hk =>
      List.filter_eq_nil_iff.2 fun y hy => by simpa using hk.trans (hx y hy)
    have hsame : k < f x → xs.filter (f · = k) = [] := fun hk =>
      List.filter_eq_nil_iff.2 fun y hy => by simpa using (hk.trans_le (hx y hy)).ne'
    have hback := ih hxs
    rcases lt_trichotomy (f x) k with hlt | heq | hgt
    · simp only [List.filter_cons, decide_eq_true hlt, decide_eq_false hlt.ne,
        decide_eq_false hlt.not_gt, if_true, Bool.false_eq_true, if_false, List.cons_append]
      exact congrArg (x :: ·) hback
    · rw [hbefore heq.ge, List.nil_append] at hback
      simp only [List.filter_cons, hbefore heq.ge, decide_eq_true heq, decide_eq_false heq.not_lt,
        decide_eq_false heq.not_gt, if_true, Bool.false_eq_true, if_false, List.cons_append,
        List.nil_append]
      exact congrArg (x :: ·) hback
    · rw [hbefore hgt.le, hsame hgt, List.nil_append, List.nil_append] at hback
      simp only [List.filter_cons, hbefore hgt.le, hsame hgt, decide_eq_true hgt,
        decide_eq_false hgt.ne', decide_eq_false hgt.not_gt, if_true, Bool.false_eq_true, if_false,
        List.nil_append]
      exact congrArg (x :: ·) hback

theorem filter_mergeSort {f : α → κ} {le : α → α → Bool} (hle : ∀ a b, le a b ↔ f a ≤ f b)
    (xs : List α) (k : κ) :
    (xs.mergeSort le).filter (f · = k) = xs.filter (f · = k) := by
  have htrans : ∀ a b c, le a b → le b c → le a c := fun a b c hab hbc =>
    (hle a c).2 (((hle a b).1 hab).trans ((hle b c).1 hbc))
  have htotal : ∀ a b, le a b || le b a := fun a b => by
    rw [Bool.or_eq_true, hle, hle]
    exact le_total _ _
  have hsame : (xs.filter (f · = k)).Pairwise fun a b => le a b := by
    refine List.pairwise_filter.2 (List.pairwise_of_forall fun a b ha hb => (hle a b).2 ?_)
    rw [of_decide_eq_true ha, of_decide_eq_true hb]
  have hsub := (List.sublist_mergeSort htrans htotal hsame List.filter_sublist).filter (f · = k)
  rw [List.filter_filter] at hsub
  simp only [Bool.and_self] at hsub
  exact (hsub.eq_of_length ((List.mergeSort_perm xs le).filter _).length_eq.symm).symm

end Sorting

namespace Connection

def key (c : Connection) : ℤ ×ₗ ℤ ×ₗ ℕ ×ₗ ℕ :=
  toLex (c.grid₁, toLex (c.grid₂, toLex (c.cell₁, c.cell₂)))

theorem le_iff_key (a b : Connection) : le a b ↔ a.key ≤ b.key := by
  simp only [key, Prod.Lex.toLex_le_toLex, le]
  split_ifs <;> simp_all

def grids (c : Connection) : ℤ ×ₗ ℤ := toLex (c.grid₁, c.grid₂)

theorem grids_le_of_key_le {a b : Connection} (h : a.key ≤ b.key) : a.grids ≤ b.grids := by
  simp only [key, grids, Prod.Lex.toLex_le_toLex] at h ⊢
  omega

theorem sameGrids_iff {a b : Connection} : a.sameGrids b ↔ a.grids = b.grids := by
  simp [sameGrids, grids]

def Unequal (file : KeywordFile) (stream : Bytes) (part : Catalog) (first second : String) : Prop :=
  ∃ xs ys, Gives file stream part first xs ∧ Gives file stream part second ys ∧
    xs.length ≠ ys.length

section Functional

variable {file : KeywordFile} {stream : Bytes} {part : Catalog} {first second : String}
  {grid₁ grid₂ : Int} {xs ys : List Int} {listed listed' : List Listing}

theorem Gives.unique {name : String} (h : Gives file stream part name xs)
    (h' : Gives file stream part name ys) : xs = ys :=
  Except.ok.inj (h.symm.trans h')

theorem gives_of_first {ks : List Keyword} (hl : file.Lists stream part ks) {name : String}
    {k : Keyword} (hk : Keyword.first? name ks = some k) (hxs : k.integers = .ok xs) :
    Gives file stream part name xs :=
  bind_eq_ok.2 ⟨k, Forest.loadFrom_first hl hk, hxs⟩

theorem Gives.has {name : String} (h : Gives file stream part name xs) : part.has name := by
  obtain ⟨k, hload, -⟩ := bind_eq_ok.1 h
  obtain ⟨e, he, -⟩ := KeywordFile.loadFrom_eq_ok_iff.1 hload
  obtain ⟨hmem, hname⟩ := List.mem_filter.1 (List.mem_of_getElem? he)
  exact List.any_eq_true.2 ⟨e, hmem, hname⟩

theorem Pairs.unique (h : Pairs file stream part first second grid₁ grid₂ listed)
    (h' : Pairs file stream part first second grid₁ grid₂ listed') : listed = listed' := by
  obtain ⟨xs, ys, hxs, hys, -, rfl⟩ := h
  obtain ⟨xs', ys', hxs', hys', -, rfl⟩ := h'
  rw [hxs.unique hxs', hys.unique hys']

theorem Unequal.not_pairs (h : Unequal file stream part first second) :
    ¬Pairs file stream part first second grid₁ grid₂ listed := by
  rintro ⟨xs, ys, hxs, hys, hlength, -⟩
  obtain ⟨xs', ys', hxs', hys', hne⟩ := h
  rw [hxs.unique hxs', hys.unique hys'] at hlength
  exact hne hlength

theorem PartLists.unique (h : PartLists file stream part listed)
    (h' : PartLists file stream part listed') : listed = listed' := by
  obtain ⟨head, inside, across, hhead, hinside, hacross, rfl⟩ := h
  obtain ⟨head', inside', across', hhead', hinside', hacross', rfl⟩ := h'
  obtain rfl := hhead.unique hhead'
  congr 1
  · split at hinside
    · next hhas =>
      rw [if_pos hhas] at hinside'
      exact hinside.unique hinside'
    · next hhas =>
      rw [if_neg hhas] at hinside'
      rw [hinside, hinside']
  · split at hacross
    · next hhas =>
      rw [if_pos hhas] at hacross'
      exact hacross.unique hacross'
    · next hhas =>
      rw [if_neg hhas] at hacross'
      rw [hacross, hacross']

theorem AmalgamationLists.unique (h : AmalgamationLists file stream part listed)
    (h' : AmalgamationLists file stream part listed') : listed = listed' := by
  obtain ⟨grid₁, grid₂, rest, hhead, hpairs⟩ := h
  obtain ⟨grid₁', grid₂', rest', hhead', hpairs'⟩ := h'
  have hsame := hhead.unique hhead'
  rw [List.cons.injEq, List.cons.injEq] at hsame
  obtain ⟨rfl, rfl, -⟩ := hsame
  exact hpairs.unique hpairs'

theorem Declares.unique (h : Declares file stream listed) (h' : Declares file stream listed') :
    listed = listed' := by
  obtain ⟨parts, amalgamations, hparts, hamalgamations, rfl⟩ := h
  obtain ⟨parts', amalgamations', hparts', hamalgamations', rfl⟩ := h'
  have hpart : Relator.RightUnique (PartLists file stream) := fun _ _ _ => PartLists.unique
  have hamalgamation : Relator.RightUnique (AmalgamationLists file stream) :=
    fun _ _ _ => AmalgamationLists.unique
  rw [hpart.forall₂ hparts hparts', hamalgamation.forall₂ hamalgamations hamalgamations']

/-- Some pair of keywords that lists connections gives different numbers of values. -/
def Mismatched (file : KeywordFile) (stream : Bytes) : Prop :=
  (∃ part ∈ file.catalog.blocks "NNCHEAD", Unequal file stream part "NNC1" "NNC2" ∨
    Unequal file stream part "NNCG" "NNCL") ∨
  ∃ part ∈ file.catalog.blocks "NNCHEADA", Unequal file stream part "NNA1" "NNA2"

theorem Mismatched.not_declares (h : Mismatched file stream) : ¬Declares file stream listed := by
  rintro ⟨parts, amalgamations, hparts, hamalgamations, -⟩
  rcases h with ⟨part, hpart, hunequal⟩ | ⟨part, hpart, hunequal⟩
  · obtain ⟨listed, -, head, inside, across, -, hinside, hacross, -⟩ := exists_of_mem hparts hpart
    rcases hunequal with hunequal | hunequal
    · have ⟨_, _, hfirst, _, _⟩ := hunequal
      rw [if_pos hfirst.has] at hinside
      exact hunequal.not_pairs hinside
    · have ⟨_, _, _, hsecond, _⟩ := hunequal
      rw [if_pos hsecond.has] at hacross
      exact hunequal.not_pairs hacross
  · obtain ⟨listed, -, grid₁, grid₂, rest, -, hpairs⟩ := exists_of_mem hamalgamations hpart
    exact hunequal.not_pairs hpairs

end Functional

end Connection

namespace Forest

variable {file : KeywordFile} {stream : Bytes} {forest : Forest}

/-- Where the main grid has the number 0, the grids that the ends of connections are checked
against are the ones that are looked up by number. -/
theorem Linked.sizes_eq {log : List Request} (h : forest.Linked log)
    (hzero : forest.main.number = 0) (number : Int) :
    forest.sizes number = (forest.gridNumbered? number).map Grid.size := by
  cases hsize : forest.sizes number with
  | some size =>
    rcases h.known_of_sizes hsize with ⟨hmain, rfl⟩ | ⟨-, -, grid, hgrid, rfl⟩
    · rw [hmain, hzero, gridNumbered?, if_pos rfl, Option.map_some]
    · rw [hgrid, Option.map_some]
  | none =>
    have hall : ∀ grid ∈ forest.grids, grid.number ≠ number := by
      simpa [sizes] using hsize
    have hmain : number ≠ 0 := by
      rintro rfl
      exact hall forest.main List.mem_cons_self hzero
    rw [gridNumbered?, if_neg hmain, eq_comm, Option.map_eq_none_iff]
    cases hid : forest.numbered? number with
    | none => rfl
    | some id =>
      obtain ⟨-, grid, hgrid, hnumber⟩ := (h.numbered?_eq_some number id).1 hid
      exact absurd hnumber (hall grid (List.mem_of_getElem? hgrid))

theorem isDualPorosity_eq {ks : List Keyword} (hfile : file.Holds stream ks) {k : Keyword}
    (hk : Keyword.first? "FILEHEAD" ks = some k) (htype : k.type = .int) (hcount : 5 < k.count) :
    isDualPorosity file stream = .ok ((Element.decode (k.slot 5) : Int32) != 0) := by
  have hnamed : List.Forall₂ (file.Shows stream) (file.catalog.named "FILEHEAD")
      (Keyword.called "FILEHEAD" ks) := by
    refine List.rel_filter (fun e k hshows => ?_) hfile.shows
    have hname : e.name = k.name.val := congrArg Header.name hshows.header
    dsimp only
    rw [hname]
  have hget := rel_getElem? hnamed 0
  have hfirst : (Keyword.called "FILEHEAD" ks)[0]? = some k := by
    rw [← List.head?_eq_getElem?, Keyword.head?_called, hk]
  rw [hfirst] at hget
  unfold isDualPorosity Catalog.get?
  generalize (file.catalog.named "FILEHEAD")[0]? = found at hget ⊢
  cases hget with
  | @some e _ hshows =>
    have hcounts : e.count = k.count := congrArg Header.count hshows.header
    have helement := hshows.element (α := Int32) htype.symm (by rw [htype]; rfl) hcount
    simp only [hcounts, if_pos hcount, helement, ok_bind, pure_eq]

/-- The connections of a forest that is built are the ones that the file declares, save that a dual
porosity model leaves out those of fractures. They are sorted by both grids and both cells; those
with the same ends stay in the order of the file, and those of the same grids stand together. A
file that pairs keywords of different lengths is not built. -/
theorem connections_of_build (file : KeywordFile) (stream : Bytes) (applyAxes : Bool) :
    (∀ forest, build file stream applyAxes = .ok forest →
      ∃ flag listed, isDualPorosity file stream = .ok flag ∧
        Connection.Declares file stream listed ∧
        (∀ other, Connection.Declares file stream other → other = listed) ∧
        let kept := Connection.Listing.kept forest.sizes flag listed
        let read := kept.map Connection.Listing.connection
        (∀ l ∈ kept, 1 ≤ l.number₁ ∧ 1 ≤ l.number₂) ∧
        forest.connections.Perm read ∧
        forest.connections.Pairwise (fun a b => a.key ≤ b.key) ∧
        (∀ key, forest.connections.filter (·.key = key) = read.filter (·.key = key)) ∧
        (∀ c : Connection, ∃ front back,
          forest.connections = front ++ forest.connections.filter (·.sameGrids c) ++ back) ∧
        (MainUnnumbered file stream →
          ∀ number, forest.sizes number = (forest.gridNumbered? number).map Grid.size)) ∧
    (Connection.Mismatched file stream → ∃ fault, build file stream applyAxes = .error fault) := by
  refine ⟨fun forest h => ?_, fun hmismatched => ?_⟩
  · obtain ⟨main, hgrown, hunnumbered⟩ := grown_of_build h
    obtain ⟨log, hlinked⟩ := hgrown.linked
    obtain ⟨axes, grids, flag, -, hflag, hread, hforest⟩ := build_eq_ok h
    obtain ⟨listed, hdeclares, read, ⟨hwithin, rfl⟩, hsorted⟩ := Connection.readAll_eq_ok.1 hread
    have hnumbers : ∀ l ∈ Connection.Listing.kept grids.sizes flag listed,
        1 ≤ l.number₁ ∧ 1 ≤ l.number₂ := fun l hl =>
      have ⟨⟨_, _, hlow₁, _⟩, _, _, hlow₂, _⟩ := hwithin l hl
      ⟨hlow₁, hlow₂⟩
    have hsizes : forest.sizes = grids.sizes := by rw [hforest]; rfl
    have hkeys : forest.connections.Pairwise (fun a b => a.key ≤ b.key) := by
      rw [← hsorted]
      refine (List.pairwise_mergeSort ?_ ?_ _).imp fun {a b} hab =>
        (Connection.le_iff_key a b).1 hab
      · intro a b c hab hbc
        rw [Connection.le_iff_key] at *
        exact hab.trans hbc
      · intro a b
        rw [Bool.or_eq_true, Connection.le_iff_key, Connection.le_iff_key]
        exact le_total _ _
    rw [hsizes]
    refine ⟨flag, listed, hflag, hdeclares, fun other hother => hother.unique hdeclares, hnumbers,
      ?_, hkeys, fun key => ?_, fun c => ?_, fun hmain => ?_⟩
    · rw [← hsorted]
      exact List.mergeSort_perm ..
    · rw [← hsorted]
      exact filter_mergeSort Connection.le_iff_key _ key
    · have hclass := filter_append_of_sorted (hkeys.imp Connection.grids_le_of_key_le) c.grids
      have hsame : (·.sameGrids c) = fun d : Connection => decide (d.grids = c.grids) :=
        funext fun d => Bool.eq_iff_iff.2 (by rw [Connection.sameGrids_iff, decide_eq_true_iff])
      rw [hsame]
      exact ⟨_, _, hclass⟩
    · rw [← hsizes]
      exact hlinked.sizes_eq (hgrown.number_eq.trans (hunnumbered hmain))
  · cases hbuild : build file stream applyAxes with
    | error fault => exact ⟨fault, rfl⟩
    | ok forest =>
      obtain ⟨axes, grids, flag, -, -, hread, -⟩ := build_eq_ok hbuild
      obtain ⟨listed, hdeclares, -⟩ := Connection.readAll_eq_ok.1 hread
      exact absurd hdeclares hmismatched.not_declares

section Paired

/-- What is read of a dual porosity model of one grid, but for the pairs of its cells. -/
structure Paired (file : KeywordFile) (stream : Bytes) (grids : Forest) (joins : List Keyword) :
    Prop where
  axes : (file.loadOptional stream (file.catalog.head "LGR") "MAPAXES" >>= axesOf) = .ok none
  grids : gridsOf file stream none = .ok grids
  dualPorosity : isDualPorosity file stream = .ok true
  across : file.catalog.blocks "NNCHEADA" = []
  inside : ∃ part, file.catalog.blocks "NNCHEAD" = [part] ∧ file.Lists stream part joins

variable {dims : Dims} {grids : Forest} {joins : List Keyword}

theorem paired_of_holds (hfile : file.Holds stream (ofGrid 0 dims (.counting dims none) ++
      [words ⟨"FILEHEAD", by decide⟩ [0, 0, 0, 0, 0, 1]] ++ joins))
    (hwritable : Grid.Writable 0 dims (.counting dims none))
    (hopens : IsSection "NNCHEAD" (names joins))
    (hjoins : ∀ name ∈ ["LGR", "ACTNUM", "MAPAXES", "NNCHEADA"], name ∉ names joins)
    (hforest : Blueprint.forest ⟨0, dims, .counting dims none, []⟩ none = .ok grids) :
    Paired file stream grids joins := by
  simp only [List.forall_mem_cons, List.not_mem_nil, false_implies, forall_true_iff, and_true]
    at hjoins
  obtain ⟨hlgr, hactnum, hmapaxes, hamalgamation⟩ := hjoins
  have hfront {name : String} (hname : name ∉ ["GRIDHEAD", "COORD", "ZCORN", "ACTNUM"])
      (hhead : name ≠ "FILEHEAD") : name ∉ names (ofGrid 0 dims (.counting dims none) ++
        [words ⟨"FILEHEAD", by decide⟩ [0, 0, 0, 0, 0, 1]]) := by
    simpa [hhead] using notMem_names_ofGrid hname 0 dims (.counting dims none)
  have hsections : StoreSections (ofGrid 0 dims (.counting dims none) ++
      [words ⟨"FILEHEAD", by decide⟩ [0, 0, 0, 0, 0, 1]] ++ joins) []
      ⟨0, dims, .counting dims none, []⟩ := {
    not_opened := by simpa [hlgr] using hfront (by decide : "LGR" ∉ _) (by decide)
    opened := List.forall_mem_nil _
    main := by
      have hstored := storeGrid_ofGrid []
        (words ⟨"FILEHEAD", by decide⟩ [0, 0, 0, 0, 0, 1] :: joins) hwritable (.inl rfl)
        (by decide) (by simpa using hactnum)
      simpa using hstored
    refinements := .nil }
  have hstored : file.Holds stream (ofGrid 0 dims (.counting dims none) ++
      [words ⟨"FILEHEAD", by decide⟩ [0, 0, 0, 0, 0, 1]] ++ joins ++
      ([] : List (List Keyword)).flatten) := by
    rwa [List.flatten_nil, List.append_nil]
  obtain ⟨hhead, -⟩ := hstored.lists.sections hsections.not_opened hsections.opened
  exact {
    axes := by
      rw [hhead.loadOptional_eq "MAPAXES", ← head?_called, notMem_names.1]
      · rfl
      · simpa [hmapaxes] using hfront (by decide : "MAPAXES" ∉ _) (by decide)
    grids := (gridsOf_sections_eq hstored hsections none).trans hforest
    dualPorosity := (isDualPorosity_eq hfile rfl rfl (by decide)).trans (by decide)
    across := blocks_eq_nil hfile
      (by simpa [hamalgamation] using hfront (by decide : "NNCHEADA" ∉ _) (by decide))
    inside := hfile.lists.exists_block (hfront (by decide) (by decide)) hopens }

theorem Paired.build_eq (h : Paired file stream grids joins) : build file stream true =
    (Connection.readAll file stream grids.sizes true >>= fun connections =>
      .ok { grids with mapAxes := none, connections := connections }) := by
  rw [build_bind, h.axes, ok_bind, if_pos rfl, h.grids, ok_bind, h.dualPorosity, ok_bind]

end Paired

/-- A dual porosity model of two cells. The file lists a pair, another one twice and between these
one of a fracture. In a second file the two keywords of the pairs differ in length. -/
theorem connections_of_build_fracture :
    let front := ofGrid 0 ⟨2, 1, 1⟩ (.counting ⟨2, 1, 1⟩ none) ++
      [words ⟨"FILEHEAD", by decide⟩ [0, 0, 0, 0, 0, 1]]
    let joins (second : List Int) := [words ⟨"NNCHEAD", by decide⟩ [4, 0],
      words ⟨"NNC1", by decide⟩ [2, 1, 3, 1], words ⟨"NNC2", by decide⟩ second]
    (∃ file stream forest, KeywordFile.Holds file stream (front ++ joins [1, 2, 1, 2]) ∧
      build file stream true = .ok forest ∧
      forest.connections.Perm [⟨0, 1, 0, 0, 0⟩, ⟨0, 0, 0, 1, 1⟩, ⟨0, 0, 0, 1, 3⟩] ∧
      forest.connections.filter (·.key = toLex (0, toLex (0, toLex (0, 1)))) =
        [⟨0, 0, 0, 1, 1⟩, ⟨0, 0, 0, 1, 3⟩]) ∧
    ∃ file stream fault, KeywordFile.Holds file stream (front ++ joins [1, 2, 1]) ∧
      build file stream true = .error fault := by
  intro front joins
  have hwritable : Grid.Writable 0 ⟨2, 1, 1⟩ (.counting ⟨2, 1, 1⟩ none) :=
    Grid.writable_counting (by decide)
  obtain ⟨grids, hforest, hsize⟩ : ∃ grids,
      Blueprint.forest ⟨0, ⟨2, 1, 1⟩, .counting ⟨2, 1, 1⟩ none, []⟩ none = .ok grids ∧
        grids.sizes 0 = some 2 := ⟨_, rfl, rfl⟩
  refine ⟨?_, ?_⟩
  · obtain ⟨file, stream, hfile⟩ :=
      @KeywordFile.exists_holds (front ++ joins [1, 2, 1, 2]) .big (by decide)
    have hpaired := paired_of_holds hfile hwritable ⟨_, rfl, by decide⟩ (by decide) hforest
    obtain ⟨part, hblocks, hlists⟩ := hpaired.inside
    let listed := Connection.Listing.ofNumbers 0 0 0 [(2, 1), (1, 2), (3, 1), (1, 2)]
    let read : List Connection := [⟨0, 1, 0, 0, 0⟩, ⟨0, 0, 0, 1, 1⟩, ⟨0, 0, 0, 1, 3⟩]
    have hinside : part.has "NNC1" := (hlists.has_iff "NNC1").2 (by decide)
    have hacross : part.has "NNCL" = false :=
      Bool.eq_false_iff.2 fun hhas => absurd ((hlists.has_iff "NNCL").1 hhas) (by decide)
    have hhead : Connection.Gives file stream part "NNCHEAD" [4, 0] :=
      Connection.gives_of_first hlists rfl (integers_words _ (by decide))
    have hfirst : Connection.Gives file stream part "NNC1" [2, 1, 3, 1] :=
      Connection.gives_of_first hlists rfl (integers_words _ (by decide))
    have hsecond : Connection.Gives file stream part "NNC2" [1, 2, 1, 2] :=
      Connection.gives_of_first hlists rfl (integers_words _ (by decide))
    have hdeclares : Connection.Declares file stream listed := by
      refine ⟨[listed], [], ?_, ?_, by simp⟩
      · rw [hblocks]
        refine .cons ⟨[4, 0], listed, [], hhead, ?_, by rw [hacross]; rfl, by simp⟩ .nil
        rw [if_pos hinside]
        exact ⟨_, _, hfirst, hsecond, rfl, rfl⟩
      · rw [hpaired.across]
        exact .nil
    have hkept : Connection.Listing.kept grids.sizes true listed =
        [⟨0, 2, 0, 1, 0⟩, ⟨0, 1, 0, 2, 1⟩, ⟨0, 1, 0, 2, 3⟩] := by
      simp [Connection.Listing.kept, Connection.Listing.JoinsFracture, listed,
        Connection.Listing.ofNumbers, hsize]
    have hread : Connection.readAll file stream grids.sizes true =
        .ok (read.mergeSort Connection.le) := by
      refine Connection.readAll_eq_ok.2 ⟨listed, hdeclares, read, ?_, rfl⟩
      rw [Connection.Keeps, hkept]
      exact ⟨by simp [Connection.Listing.Within, hsize], rfl⟩
    let forest : Forest :=
      { grids with mapAxes := none, connections := read.mergeSort Connection.le }
    have hbuild : build file stream true = .ok forest := by
      rw [hpaired.build_eq, hread, ok_bind]
    obtain ⟨flag, listed', hflag, -, hunique, -, hperm, -, hstable, -⟩ :=
      (connections_of_build file stream true).1 forest hbuild
    obtain rfl := hunique listed hdeclares
    obtain rfl : flag = true := Except.ok.inj (hflag.symm.trans hpaired.dualPorosity)
    have hsame : Connection.Listing.kept forest.sizes true listed = _ := hkept
    rw [hsame] at hperm
    refine ⟨file, stream, forest, hfile, hbuild, hperm, ?_⟩
    rw [hstable, hsame]
    decide
  · obtain ⟨file, stream, hfile⟩ :=
      @KeywordFile.exists_holds (front ++ joins [1, 2, 1]) .big (by decide)
    have hpaired := paired_of_holds hfile hwritable ⟨_, rfl, by decide⟩ (by decide) hforest
    obtain ⟨part, hblocks, hlists⟩ := hpaired.inside
    have hmismatched : Connection.Mismatched file stream := by
      have hunequal : Connection.Unequal file stream part "NNC1" "NNC2" :=
        ⟨_, _, Connection.gives_of_first hlists rfl (integers_words _ (by decide)),
          Connection.gives_of_first hlists rfl (integers_words _ (by decide)), by decide⟩
      exact .inl ⟨part, hblocks ▸ List.mem_cons_self, .inl hunequal⟩
    obtain ⟨fault, hfault⟩ := (connections_of_build file stream true).2 hmismatched
    exact ⟨file, stream, fault, hfile, hfault⟩

end Forest

end Reservoir
