import Reservoir.Proofs.Decimal.Unpacking
import Reservoir.Proofs.Grid.Recorded
import Reservoir.Proofs.Keyword.Strings

/-!
Files written for a blueprint. The numbers that it gives are words of a file, so its grids have
keywords in either layout, and what these store is the blueprint.
-/

namespace Reservoir

open Outcome

def AreWords (values : List Int) : Prop := ∀ v ∈ values, -2 ^ 31 ≤ v ∧ v < 2 ^ 31

instance (values : List Int) : Decidable (AreWords values) :=
  inferInstanceAs (Decidable (∀ v ∈ values, _))

theorem AreWords.of_subset {front back : List Int} (h : AreWords back) (hsub : front ⊆ back) :
    AreWords front :=
  fun v hv => h v (hsub hv)

namespace Keyword

def words (name : Name) (values : List Int) : Keyword := holding name (values.map Int32.ofInt)

@[simp]
theorem name_words (name : Name) (values : List Int) : (words name values).name = name := rfl

theorem toInt_words {values : List Int} (h : AreWords values) :
    (values.map Int32.ofInt).map Int32.toInt = values := by
  rw [List.map_map]
  conv_rhs => rw [← List.map_id values]
  exact List.map_congr_left fun v hv => Int32.toInt_ofInt_of_le (h v hv).1 (h v hv).2

theorem integers_words (name : Name) {values : List Int} (h : AreWords values) :
    (words name values).integers = .ok values := by
  rw [words, integers_holding, toInt_words h]

theorem count_words (name : Name) (values : List Int) : (words name values).count = values.length :=
  List.length_map _

def text (name : Name) (s : String) (h : Text.FitsSlot 8 s) : Keyword :=
  ⟨name, .char, 1, Text.paddedSlot 8 s, .inl (Text.length_paddedSlot h)⟩

@[simp]
theorem names_append (front back : List Keyword) :
    names (front ++ back) = names front ++ names back :=
  List.map_append

@[simp]
theorem names_cons (k : Keyword) (ks : List Keyword) : names (k :: ks) = k.name.val :: names ks :=
  rfl

@[simp]
theorem names_nil : names [] = [] := rfl

section Finding

variable {name : String} {front back : List Keyword} {k : Keyword}

theorem first?_append_of_notMem (h : name ∉ names front) :
    first? name (front ++ back) = first? name back := by
  rw [← head?_called, called_append, notMem_names.1 h, List.nil_append, head?_called]

theorem first?_cons_of_eq (h : k.name.val = name) : first? name (k :: back) = some k :=
  List.find?_cons_of_pos (beq_iff_eq.2 h)

theorem first?_cons_of_ne (h : k.name.val ≠ name) :
    first? name (k :: back) = first? name back :=
  List.find?_cons_of_neg (by simpa using h)

end Finding

end Keyword

open Keyword

namespace Grid

/-- Arrays with all values that a box asks for. The values are the words from 0 on. -/
def Arrays.counting (dims : Dims) (activity : Option (List Int)) : Arrays :=
  let doubles (n : Nat) : List Double := (List.range n).map fun i => ⟨UInt64.ofNat i⟩
  ⟨doubles dims.pillarCount, doubles dims.depthCount, activity⟩

def Arrays.pillarKeyword (arrays : Arrays) : Keyword := holding ⟨"COORD", by decide⟩ arrays.pillars

def Arrays.depthKeyword (arrays : Arrays) : Keyword := holding ⟨"ZCORN", by decide⟩ arrays.depths

def Arrays.activityKeyword? (arrays : Arrays) : Option Keyword :=
  arrays.activity.map (words ⟨"ACTNUM", by decide⟩)

@[simp]
theorem Arrays.name_pillarKeyword (arrays : Arrays) : arrays.pillarKeyword.name.val = "COORD" := rfl

@[simp]
theorem Arrays.name_depthKeyword (arrays : Arrays) : arrays.depthKeyword.name.val = "ZCORN" := rfl

theorem Arrays.doubles_pillarKeyword (arrays : Arrays) :
    arrays.pillarKeyword.doubles = .ok arrays.pillars := doubles_holding ..

theorem Arrays.doubles_depthKeyword (arrays : Arrays) :
    arrays.depthKeyword.doubles = .ok arrays.depths := doubles_holding ..

theorem Arrays.name_activityKeyword {arrays : Arrays} {k : Keyword}
    (h : arrays.activityKeyword? = some k) : k.name.val = "ACTNUM" := by
  obtain ⟨values, -, rfl⟩ := Option.map_eq_some_iff.1 h
  rfl

structure Writable (number : Int) (dims : Dims) (arrays : Arrays) : Prop where
  positive : dims.Positive
  fill : arrays.Fill dims
  header : AreWords (number :: dims.values)
  activity : ∀ values, arrays.activity = some values →
    values.length = dims.count ∧ AreWords values

variable {number : Int} {dims : Dims} {arrays : Arrays}

theorem arraysOf_words (h : Writable number dims arrays) :
    arraysOf dims arrays.pillarKeyword arrays.depthKeyword arrays.activityKeyword? =
      .ok arrays := by
  have hpillars : arrays.pillarKeyword.count = wrap dims.pillarCount :=
    h.fill.pillars.trans (wrap_of_lt h.fill.pillarCount_lt).symm
  have hdepths : arrays.depthKeyword.count = wrap dims.depthCount :=
    h.fill.depths.trans (wrap_of_lt h.fill.depthCount_lt).symm
  have hactivity : checkActivity dims.size arrays.activityKeyword? = .ok arrays.activity := by
    unfold Arrays.activityKeyword?
    cases hstored : arrays.activity with
    | none => rfl
    | some values =>
      obtain ⟨hlength, hwords⟩ := h.activity values hstored
      have hcount : (words ⟨"ACTNUM", by decide⟩ values).count = dims.size :=
        (count_words ..).trans (hlength.trans h.fill.size_eq.symm)
      simp only [Option.map_some, checkActivity, checkCount_eq_ok.2 hcount, integers_words _ hwords,
        ok_bind, pure_eq]
  simp only [arraysOf, checkCount_eq_ok.2 hpillars, checkCount_eq_ok.2 hdepths, hactivity,
    Arrays.doubles_pillarKeyword, Arrays.doubles_depthKeyword, ok_bind, pure_eq]

theorem writable_counting {activity : Option (List Int)}
    (h : dims.Positive ∧ dims.pillarCount < 2 ^ 64 ∧ dims.depthCount < 2 ^ 64 ∧
      AreWords (number :: dims.values) ∧
      ∀ values ∈ activity, values.length = dims.count ∧ AreWords values) :
    Writable number dims (.counting dims activity) := by
  obtain ⟨hpos, hpillars, hdepths, hheader, hactivity⟩ := h
  exact ⟨hpos, ⟨by simp [Arrays.counting], by simp [Arrays.counting], hpillars, hdepths⟩, hheader,
    hactivity⟩

end Grid

def Dims.header (d : Dims) (number : Int) : Keyword :=
  words ⟨"GRIDHEAD", by decide⟩ (1 :: d.values ++ [number])

@[simp]
theorem Dims.name_header (d : Dims) (number : Int) : (d.header number).name.val = "GRIDHEAD" := rfl

theorem Dims.integers_header {d : Dims} {number : Int} (h : AreWords (number :: d.values)) :
    (d.header number).integers = .ok (1 :: d.values ++ [number]) := by
  refine integers_words _ fun v hv => ?_
  rw [List.cons_append, List.mem_cons, List.mem_append, List.mem_singleton] at hv
  rcases hv with rfl | hv | rfl
  · decide
  · exact h v (List.mem_cons_of_mem _ hv)
  · exact h v List.mem_cons_self

namespace Keyword

section Sections

variable {number default : Int} {dims : Dims} {arrays : Grid.Arrays}

def ofGrid (number : Int) (dims : Dims) (arrays : Grid.Arrays) : List Keyword :=
  dims.header number :: arrays.pillarKeyword :: arrays.depthKeyword ::
    arrays.activityKeyword?.toList

theorem storeGrid_ofGrid (before after : List Keyword) (h : Grid.Writable number dims arrays)
    (hnumber : number = default ∨ 0 < number)
    (hbefore : ∀ name ∈ ["GRIDHEAD", "COORD", "ZCORN", "ACTNUM"], name ∉ names before)
    (hafter : "ACTNUM" ∉ names after) :
    StoreGrid default (before ++ ofGrid number dims arrays ++ after) number dims arrays := by
  simp only [List.forall_mem_cons, List.not_mem_nil, false_implies, forall_true_iff, and_true]
    at hbefore
  obtain ⟨hhead, hcoord, hzcorn, hactnum⟩ := hbefore
  have hskip {name : String} (hname : name ∉ names before) :
      first? name (before ++ ofGrid number dims arrays ++ after) =
        first? name (ofGrid number dims arrays ++ after) := by
    rw [List.append_assoc, first?_append_of_notMem hname]
  refine ⟨h.positive, .header ((hskip hhead).trans (first?_cons_of_eq rfl))
      (Dims.integers_header h.header) ?_,
    ⟨_, (hskip hcoord).trans rfl, h.fill.pillars, doubles_holding ..⟩,
    ⟨_, (hskip hzcorn).trans rfl, h.fill.depths, doubles_holding ..⟩, ?_⟩
  · simp only [List.getElem?_cons_zero, Option.filter, decide_eq_true_eq]
    split
    · rfl
    · next hzero => exact (hnumber.resolve_right hzero).symm
  · rw [hskip hactnum]
    cases hstored : arrays.activity with
    | none =>
      refine .inl ⟨?_, rfl⟩
      rw [ofGrid, Grid.Arrays.activityKeyword?, hstored, ← head?_called, notMem_names.1]
      · rfl
      · simpa using hafter
    | some values =>
      obtain ⟨hlength, hwords⟩ := h.activity values hstored
      refine .inr ⟨words ⟨"ACTNUM", by decide⟩ values, values, ?_,
        (count_words ..).trans hlength, integers_words _ hwords, rfl⟩
      rw [ofGrid, Grid.Arrays.activityKeyword?, hstored]
      rfl

/-- The keywords that name a refinement and perhaps its parent. -/
inductive Naming (r : Refinement) : List Keyword → Prop where
  | outer {lgr : Keyword} (named : lgr.name.val = "LGR") (name : lgr.getString 0 = .ok r.name)
      (parent : r.parent = "") : Naming r [lgr]
  | nested {lgr host : Keyword} (named : lgr.name.val = "LGR") (name : lgr.getString 0 = .ok r.name)
      (host_named : host.name.val = "LGRPARNT") (host_count : host.count ≠ 0)
      (parent : host.getString 0 = .ok r.parent) : Naming r [lgr, host]

def ofRefinement (naming : List Keyword) (r : Refinement) : List Keyword :=
  naming ++ ofGrid r.number r.dims r.arrays ++ [words ⟨"HOSTNUM", by decide⟩ r.hosts]

end Sections

end Keyword

structure Refinement.Writable (r : Refinement) : Prop where
  grid : Grid.Writable r.number r.dims r.arrays
  hosts : r.hosts.length = r.dims.count ∧ AreWords r.hosts

structure Blueprint.Writable (b : Blueprint) : Prop where
  main : Grid.Writable b.number b.dims b.arrays
  refinements : ∀ r ∈ b.refinements, r.Writable

theorem Refinement.Writable.sized {r : Refinement} (h : r.Writable) : r.Sized where
  fill := h.grid.fill
  activity values hvalues := (h.grid.activity values hvalues).1
  hosts := h.hosts.1

theorem Blueprint.Writable.sized {b : Blueprint} (h : b.Writable) : b.Sized where
  fill := h.main.fill
  activity values hvalues := (h.main.activity values hvalues).1
  refinements r hr := (h.refinements r hr).sized

namespace Keyword

theorem notMem_names_ofGrid {name : String} (h : name ∉ ["GRIDHEAD", "COORD", "ZCORN", "ACTNUM"])
    (number : Int) (dims : Dims) (arrays : Grid.Arrays) :
    name ∉ names (ofGrid number dims arrays) := by
  simp only [List.mem_cons, List.not_mem_nil, or_false, not_or] at h
  cases hstored : arrays.activity with
  | none => simp [ofGrid, Grid.Arrays.activityKeyword?, hstored, h]
  | some values => simp [ofGrid, Grid.Arrays.activityKeyword?, hstored, h]

section Refinements

variable {default : Int} {r : Refinement} {naming : List Keyword}

theorem first?_ofRefinement {name : String} {after : List Keyword} (hnaming : name ∉ names naming)
    (hname : name ∉ ["GRIDHEAD", "COORD", "ZCORN", "ACTNUM"]) :
    first? name (ofRefinement naming r ++ after) =
      first? name (words ⟨"HOSTNUM", by decide⟩ r.hosts :: after) := by
  have hgrid := notMem_names_ofGrid hname r.number r.dims r.arrays
  rw [ofRefinement, List.append_assoc, List.append_assoc, first?_append_of_notMem hnaming,
    first?_append_of_notMem hgrid, List.singleton_append]

theorem storeRefinement_ofRefinement (after : List Keyword) (hnaming : Naming r naming)
    (h : r.Writable) (hnumber : r.number = default ∨ 0 < r.number)
    (hafter : ∀ name ∈ ["LGRPARNT", "ACTNUM"], name ∉ names after) :
    StoreRefinement default (ofRefinement naming r ++ after) r := by
  simp only [List.forall_mem_cons, List.not_mem_nil, false_implies, forall_true_iff, and_true]
    at hafter
  have hhosts : ∃ k, first? "HOSTNUM" (words ⟨"HOSTNUM", by decide⟩ r.hosts :: after) = some k ∧
      k.count = r.dims.count ∧ k.integers = .ok r.hosts :=
    ⟨_, first?_cons_of_eq rfl, (count_words ..).trans h.hosts.1, integers_words _ h.hosts.2⟩
  have hactivity : "ACTNUM" ∉ names (words ⟨"HOSTNUM", by decide⟩ r.hosts :: after) := by
    simpa [names, words, holding] using hafter.2
  cases hnaming with
  | @outer lgr named name parent =>
    refine ⟨?_, ⟨lgr, first?_cons_of_eq named, name⟩, .inl ⟨parent, fun k hk => ?_⟩, ?_⟩
    · have hgrid := storeGrid_ofGrid [lgr] _ h.grid hnumber (by simp [names, named]) hactivity
      simpa [ofRefinement] using hgrid
    · rw [first?_ofRefinement (by simp [names, named]) (by decide),
        first?_cons_of_ne (by simp)] at hk
      exact absurd (mem_names_of_first? hk) hafter.1
    · rwa [first?_ofRefinement (by simp [names, named]) (by decide)]
  | @nested lgr host named name host_named host_count parent =>
    refine ⟨?_, ⟨lgr, first?_cons_of_eq named, name⟩, .inr ⟨host, ?_, host_count, parent⟩, ?_⟩
    · have hgrid := storeGrid_ofGrid [lgr, host] _ h.grid hnumber
        (by simp [names, named, host_named]) hactivity
      simpa [ofRefinement] using hgrid
    · exact (first?_cons_of_ne (by simp [named])).trans (first?_cons_of_eq host_named)
    · rwa [first?_ofRefinement (by simp [names, named, host_named]) (by decide)]

/-- They open a section, which ends where the next refinement is named. -/
theorem isSection_ofRefinement (after : List Keyword) (hnaming : Naming r naming)
    (hafter : "LGR" ∉ names after) :
    IsSection "LGR" (names (ofRefinement naming r ++ after)) := by
  have hgrid := notMem_names_ofGrid (show "LGR" ∉ _ by decide) r.number r.dims r.arrays
  cases hnaming with
  | outer named => exact ⟨_, by simp only [ofRefinement, names_append, names_cons, named]; rfl,
      by simp [hgrid, hafter]⟩
  | nested named name host_named =>
    exact ⟨_, by simp only [ofRefinement, names_append, names_cons, named, host_named]; rfl,
      by simp [hgrid, hafter]⟩

end Refinements

end Keyword

theorem Cell.length_coordinates (cell : Cell) : cell.coordinates.length = 24 := by
  simp [coordinates, List.length_flatMap]

theorem AreWords.getD {values : List Int} (h : AreWords values) (i : Nat) {default : Int}
    (hdefault : -2 ^ 31 ≤ default ∧ default < 2 ^ 31) :
    -2 ^ 31 ≤ values.getD i default ∧ values.getD i default < 2 ^ 31 := by
  rw [List.getD_eq_getElem?_getD]
  cases hfound : values[i]? with
  | none => exact hdefault
  | some v => exact h v (List.mem_of_getElem? hfound)

section Records

variable {number : Int} {dims : Dims} {arrays : Grid.Arrays} {hosts : Option (List Int)}

theorem Grid.Writable.activityAt (h : Grid.Writable number dims arrays) (g : Nat) :
    -2 ^ 31 ≤ arrays.activityAt g ∧ arrays.activityAt g < 2 ^ 31 := by
  rw [Grid.Arrays.activityAt]
  cases hstored : arrays.activity with
  | none => exact ⟨by simp, by simp⟩
  | some values => exact (h.activity values hstored).2.getD g (by decide)

def hostWords (hosts : Option (List Int)) (g : Nat) : List Int :=
  (hosts.map fun cells => [cells.getD g 0, 0]).getD []

theorem length_hostWords_le (hosts : Option (List Int)) (g : Nat) :
    (hostWords hosts g).length ≤ 2 := by
  cases hosts <;> simp [hostWords]

namespace CellRecord

def ofCell (dims : Dims) (arrays : Grid.Arrays) (hosts : Option (List Int)) (g : Nat) :
    CellRecord :=
  let p := dims.nth g
  ⟨words ⟨"COORDS", by decide⟩ ((p.i + 1 : Int) :: (p.j + 1 : Int) :: (p.k + 1 : Int) :: 0 ::
      arrays.activityAt g :: hostWords hosts g),
    holding ⟨"CORNERS", by decide⟩ ((arrays.cellAt dims g).coordinates.map Double.ofFloat)⟩

theorem named_ofCell (dims : Dims) (arrays : Grid.Arrays) (hosts : Option (List Int)) (g : Nat) :
    (ofCell dims arrays hosts g).Named :=
  ⟨rfl, rfl⟩

theorem areWords_place (h : AreWords dims.values) {g : Nat} (hg : g < dims.count) :
    AreWords [(dims.nth g).i + 1, (dims.nth g).j + 1, (dims.nth g).k + 1] := by
  obtain ⟨hi, hj, hk⟩ := Dims.contains_nth hg
  have hx := (h dims.nx (by simp [Dims.values])).2
  have hy := (h dims.ny (by simp [Dims.values])).2
  have hz := (h dims.nz (by simp [Dims.values])).2
  simp only [AreWords, List.forall_mem_cons]
  exact ⟨by omega, by omega, by omega, List.forall_mem_nil _⟩

theorem areWords_hostWords (h : ∀ cells, hosts = some cells → AreWords cells) (g : Nat) :
    AreWords (hostWords hosts g) := by
  cases hosts with
  | none => exact List.forall_mem_nil _
  | some cells =>
    exact List.forall_mem_cons.2 ⟨(h cells rfl).getD g (by decide),
      List.forall_mem_singleton.2 (by decide)⟩

theorem describes_ofCell (h : Grid.Writable number dims arrays)
    (hhosts : ∀ cells, hosts = some cells → AreWords cells) {g : Nat} (hg : g < dims.count) :
    (ofCell dims arrays hosts g).Describes dims arrays hosts g where
  coords := by
    have hdims := h.header.of_subset (List.subset_cons_self number dims.values)
    have hplace := areWords_place hdims hg
    have hback : AreWords (0 :: arrays.activityAt g :: hostWords hosts g) :=
      List.forall_mem_cons.2 ⟨by decide, List.forall_mem_cons.2
        ⟨h.activityAt g, areWords_hostWords hhosts g⟩⟩
    refine ⟨0, hostWords hosts g, integers_words _ ?_, ?_, ?_⟩
    · exact List.forall_mem_append.2 ⟨hplace, hback⟩
    · cases hosts with
      | none => exact .inr ⟨rfl, rfl⟩
      | some cells => exact .inl rfl
    · rintro cells rfl
      rfl
  corners := by
    refine ⟨(List.length_map _).trans (Cell.length_coordinates _), _, doubles_holding .., ?_⟩
    rw [List.map_map]
    exact List.map_id'' Double.toFloat_ofFloat _

end CellRecord

namespace RecordedGrid

def ofCells (dims : Dims) (arrays : Grid.Arrays) (hosts : Option (List Int)) (order : List Nat) :
    RecordedGrid :=
  ⟨words ⟨"DIMENS", by decide⟩ dims.values, order.map (.ofCell dims arrays hosts)⟩

theorem stores_ofCells (h : Grid.Writable number dims arrays)
    (hhosts : ∀ cells, hosts = some cells → AreWords cells) {order : List Nat}
    (horder : order.Perm (List.range dims.count)) :
    (ofCells dims arrays hosts order).Stores dims arrays hosts where
  named := ⟨rfl, fun r hr => by
    obtain ⟨g, -, rfl⟩ := List.mem_map.1 hr
    exact CellRecord.named_ofCell ..⟩
  positive := h.positive
  shape := by
    refine ⟨[], ?_⟩
    rw [List.append_nil]
    exact integers_words _ (h.header.of_subset (List.subset_cons_self ..))
  cells := ⟨order, horder, List.forall₂_map_right_iff.2 (List.forall₂_same.2 fun g hg =>
    CellRecord.describes_ofCell h hhosts (List.mem_range.1 (horder.mem_iff.1 hg)))⟩

def Counted (g : RecordedGrid) : Prop :=
  ∀ k ∈ g.dimens :: g.records.flatMap CellRecord.keywords, k.count ≤ wordLimit

theorem counted_ofCells {order : List Nat} : (ofCells dims arrays hosts order).Counted := by
  intro k hk
  rcases List.mem_cons.1 hk with rfl | hk
  · exact (count_words ..).trans_le (by simp [Dims.values, wordLimit])
  · obtain ⟨r, hr, hk⟩ := List.mem_flatMap.1 hk
    obtain ⟨g, -, rfl⟩ := List.mem_map.1 hr
    rcases List.mem_cons.1 hk with rfl | hk
    · have hback := length_hostWords_le hosts g
      refine (count_words ..).trans_le ?_
      simp only [List.length_cons, wordLimit]
      omega
    · obtain rfl := List.mem_singleton.1 hk
      simp [CellRecord.ofCell, holding, Cell.length_coordinates, wordLimit]

end RecordedGrid

def RecordedRefinement.ofCells (lgr : Keyword) (r : Refinement) (order : List Nat) :
    RecordedRefinement :=
  { RecordedGrid.ofCells r.dims r.arrays (some r.hosts) order with lgr := lgr }

theorem RecordedRefinement.stores_ofCells {lgr : Keyword} {r : Refinement} {order : List Nat}
    (h : r.Writable) (hlgr : Naming r [lgr]) (hcount : lgr.count ≤ 1)
    (horder : order.Perm (List.range r.dims.count)) : (ofCells lgr r order).Stores r := by
  cases hlgr with
  | outer named name parent =>
    exact {
      lgr_named := named
      name := name
      parent := .inl ⟨hcount, parent⟩
      grid := RecordedGrid.stores_ofCells h.grid
        (fun cells hcells => by cases hcells; exact h.hosts.2) horder }

theorem RecordedFile.count_le {f : RecordedFile} (hmain : f.toRecordedGrid.Counted)
    (haxes : ∀ k, f.axes = some k → k.count ≤ wordLimit)
    (hrefinements : ∀ r ∈ f.refinements, r.lgr.count ≤ wordLimit ∧ r.toRecordedGrid.Counted)
    {k : Keyword} (hk : k ∈ f.keywords) : k.count ≤ wordLimit := by
  simp only [keywords, front, List.mem_append, List.mem_cons, Option.mem_toList, List.mem_flatten,
    List.mem_map] at hk
  rcases hk with ((rfl | hk) | hk) | ⟨ks, ⟨r, hr, rfl⟩, hk⟩
  · exact hmain _ List.mem_cons_self
  · exact haxes k hk
  · exact hmain k (List.mem_cons_of_mem _ hk)
  · obtain ⟨hlgr, hcells⟩ := hrefinements r hr
    rcases List.mem_cons.1 hk with rfl | hk
    · exact hlgr
    · exact hcells k hk

end Records

end Reservoir
