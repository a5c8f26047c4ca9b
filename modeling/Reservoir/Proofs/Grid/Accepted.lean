import Reservoir.Proofs.Grid.Declared
import Reservoir.Proofs.Grid.Reading

/-!
The pairs of a file that are accepted: both cells lie within their grids, or the pair is skipped for
a fracture. The first pair that is not accepted ends the reading with a conflict. A pair that is
skipped is not looked at any further, so its other cell may lie anywhere.
-/

namespace Reservoir

open Outcome Keyword

namespace Connection

/-- A pair that is read on from: it is skipped for a fracture, or both cells lie within their
grids. -/
def Listing.Accepted (sizes : Sizes) (dualPorosity : Bool) (l : Listing) : Prop :=
  (dualPorosity ∧ l.JoinsFracture sizes) ∨ l.Within sizes

/-- The conflict of a number that stands for no cell of its grid. -/
def Strays (sizes : Sizes) (grid number : Int) (conflict : Conflict) : Prop :=
  (sizes grid = none ∧ conflict = .unknownGrid grid) ∨
    ∃ size, sizes grid = some size ∧ ¬(1 ≤ number ∧ number ≤ size) ∧
      conflict = .endpointOutside number grid size

/-- The first pair of a list that is not accepted has an end with this conflict. -/
def Refused (sizes : Sizes) (dualPorosity : Bool) (listed : List Listing) (conflict : Conflict) :
    Prop :=
  ∃ front l back, listed = front ++ l :: back ∧ (∀ a ∈ front, a.Accepted sizes dualPorosity) ∧
    ¬l.Accepted sizes dualPorosity ∧
    (Strays sizes l.grid₁ l.number₁ conflict ∨ Strays sizes l.grid₂ l.number₂ conflict)

section Accepting

variable {sizes : Sizes} {dualPorosity : Bool}

theorem strays_of_endpoint {grid number : Int} {fault : Fault}
    (h : endpoint sizes grid number = .error fault) :
    ∃ conflict, fault = .topology conflict ∧ Strays sizes grid number conflict := by
  unfold endpoint at h
  split at h
  · next hnone =>
    cases h
    exact ⟨_, rfl, .inl ⟨hnone, rfl⟩⟩
  · next size hsize =>
    split at h
    · cases h
    · next hrange =>
      cases h
      exact ⟨_, rfl, .inr ⟨size, hsize, hrange, rfl⟩⟩

theorem connect_cases (sizes : Sizes) (dualPorosity : Bool) (l : Listing) :
    (l.Accepted sizes dualPorosity ∧ ∃ read, connect sizes dualPorosity l = .ok read) ∨
      ¬l.Accepted sizes dualPorosity ∧ ∃ conflict,
        connect sizes dualPorosity l = .error (.topology conflict) ∧
        (Strays sizes l.grid₁ l.number₁ conflict ∨ Strays sizes l.grid₂ l.number₂ conflict) := by
  unfold connect
  by_cases hskip : dualPorosity ∧ l.JoinsFracture sizes
  · exact .inl ⟨.inl hskip, [], if_pos hskip⟩
  rw [if_neg hskip]
  cases hfirst : endpoint sizes l.grid₁ l.number₁ with
  | error fault =>
    obtain ⟨conflict, rfl, hstrays⟩ := strays_of_endpoint hfirst
    refine .inr ⟨?_, conflict, rfl, .inl hstrays⟩
    rintro (hskipped | ⟨hwithin, -⟩)
    · exact hskip hskipped
    · rw [endpoint_eq_ok.2 ⟨hwithin, rfl⟩] at hfirst
      cases hfirst
  | ok cell₁ =>
    cases hsecond : endpoint sizes l.grid₂ l.number₂ with
    | error fault =>
      obtain ⟨conflict, rfl, hstrays⟩ := strays_of_endpoint hsecond
      refine .inr ⟨?_, conflict, rfl, .inr hstrays⟩
      rintro (hskipped | ⟨-, hwithin⟩)
      · exact hskip hskipped
      · rw [endpoint_eq_ok.2 ⟨hwithin, rfl⟩] at hsecond
        cases hsecond
    | ok cell₂ =>
      exact .inl ⟨.inr ⟨(endpoint_eq_ok.1 hfirst).1, (endpoint_eq_ok.1 hsecond).1⟩, _, rfl⟩

theorem accepted_iff_connect {l : Listing} :
    l.Accepted sizes dualPorosity ↔ ∃ read, connect sizes dualPorosity l = .ok read := by
  obtain ⟨haccepted, hread⟩ | ⟨haccepted, conflict, hconflict, -⟩ :=
    connect_cases sizes dualPorosity l
  · exact iff_of_true haccepted hread
  · exact iff_of_false haccepted fun ⟨read, hread⟩ => by
      rw [hconflict] at hread
      cases hread

theorem Reading.connections_cases (sizes : Sizes) (dualPorosity : Bool) (r : Reading) :
    ((∀ l ∈ r.listed, l.Accepted sizes dualPorosity) ∧
      ∀ read, r.connections sizes dualPorosity = .ok read → r.fault = none) ∨
    ∃ conflict, Refused sizes dualPorosity r.listed conflict ∧
      r.connections sizes dualPorosity = .error (.topology conflict) := by
  unfold connections
  obtain ⟨reads, hreads⟩ | ⟨front, l, back, fault, hlisted, hfront, hfault, hreads⟩ :=
    mapM_cases (connect sizes dualPorosity) r.listed
  · refine .inl ⟨fun l hl => ?_, fun read hread => ?_⟩
    · obtain ⟨read, -, hread⟩ := exists_of_mem (mapM_eq_ok.1 hreads) hl
      exact accepted_iff_connect.2 ⟨read, hread⟩
    · rw [hreads, ok_bind] at hread
      split at hread
      · next hnone => exact hnone
      · cases hread
  · obtain ⟨-, read, hread⟩ | ⟨haccepted, conflict, hconflict, hstrays⟩ :=
      connect_cases sizes dualPorosity l
    · rw [hfault] at hread
      cases hread
    · rw [hfault] at hconflict
      cases hconflict
      refine .inr ⟨conflict, ⟨front, l, back, hlisted, fun a ha => ?_, haccepted, hstrays⟩, ?_⟩
      · exact accepted_iff_connect.2 (hfront a ha)
      · rw [hreads, error_bind]

end Accepting

end Connection

namespace Forest

open Connection

/-- Of a forest that is built, every pair that the file lists is accepted: both cells lie within
their grids, or one of them is a fracture of a dual porosity model. Where the grids can be read and
some pair that is read is not accepted, the first such pair is the conflict that the build fails
with. -/
theorem accepted_of_build (file : KeywordFile) (stream : Bytes) (applyAxes : Bool) :
    let r := Reading.ofFile file stream
    (∀ forest, build file stream applyAxes = .ok forest →
      Declares file stream r.listed ∧ ∃ flag, isDualPorosity file stream = .ok flag ∧
        ∀ l ∈ r.listed, l.Accepted forest.sizes flag) ∧
    ∀ axes grids flag,
      (file.loadOptional stream (file.catalog.head "LGR") "MAPAXES" >>= axesOf) = .ok axes →
      gridsOf file stream (if applyAxes then axes else none) = .ok grids →
      isDualPorosity file stream = .ok flag →
      (∃ l ∈ r.listed, ¬l.Accepted grids.sizes flag) →
      ∃ conflict, Refused grids.sizes flag r.listed conflict ∧
        build file stream applyAxes = .error (.topology conflict) := by
  intro r
  refine ⟨fun forest h => ?_, fun axes grids flag haxes hgrids hflag hrefused => ?_⟩
  · obtain ⟨axes, grids, flag, -, hflag, hread, hforest⟩ := build_eq_ok h
    have hsizes : forest.sizes = grids.sizes := by rw [hforest]; rfl
    rw [Reading.readAll_eq] at hread
    obtain ⟨read, hread, -⟩ := bind_eq_ok.1 hread
    obtain ⟨haccepted, hfault⟩ | ⟨conflict, -, hconflict⟩ := r.connections_cases grids.sizes flag
    · exact ⟨Reading.declares_of_fault_none (hfault read hread), flag, hflag, hsizes ▸ haccepted⟩
    · rw [hread] at hconflict
      cases hconflict
  · obtain ⟨haccepted, -⟩ | ⟨conflict, hfirst, hconflict⟩ := r.connections_cases grids.sizes flag
    · obtain ⟨l, hl, hl'⟩ := hrefused
      exact absurd (haccepted l hl) hl'
    · refine ⟨conflict, hfirst, ?_⟩
      rw [build_bind, haxes, ok_bind, hgrids, ok_bind, hflag, ok_bind, Reading.readAll_eq,
        hconflict, error_bind, error_bind]

/-- A dual porosity model of one cell. A pair of its fracture with the number 99 is skipped, though
this number is no fracture either; a pair of the cell with it is refused. -/
theorem accepted_of_build_skipped :
    let front := ofGrid 0 ⟨1, 1, 1⟩ (.counting ⟨1, 1, 1⟩ none) ++
      [words ⟨"FILEHEAD", by decide⟩ [0, 0, 0, 0, 0, 1]]
    let joins (first second : Int) := [words ⟨"NNCHEAD", by decide⟩ [1, 0],
      words ⟨"NNC1", by decide⟩ [first], words ⟨"NNC2", by decide⟩ [second]]
    (∃ file stream forest, KeywordFile.Holds file stream (front ++ joins 2 99) ∧
      build file stream true = .ok forest ∧ forest.sizes 0 = some 1 ∧
      (Reading.ofFile file stream).listed = [⟨0, 2, 0, 99, 0⟩] ∧
      Listing.Accepted forest.sizes true ⟨0, 2, 0, 99, 0⟩) ∧
    ∃ file stream, KeywordFile.Holds file stream (front ++ joins 1 99) ∧
      build file stream true = .error (.topology (.endpointOutside 99 0 1)) := by
  intro front joins
  have hwritable : Grid.Writable 0 ⟨1, 1, 1⟩ (.counting ⟨1, 1, 1⟩ none) :=
    Grid.writable_counting (by decide)
  obtain ⟨grids, hforest, hsize⟩ : ∃ grids,
      Blueprint.forest ⟨0, ⟨1, 1, 1⟩, .counting ⟨1, 1, 1⟩ none, []⟩ none = .ok grids ∧
        grids.sizes 0 = some 1 := ⟨_, rfl, rfl⟩
  have hread : ∀ {file : KeywordFile} {stream : Bytes} {first second : Int},
      file.Holds stream (front ++ joins first second) → AreWords [first] → AreWords [second] →
      Paired file stream grids (joins first second) ∧
        Reading.ofFile file stream = ⟨Listing.ofNumbers 0 0 0 [(first, second)], none⟩ := by
    intro file stream first second hfile hfirst hsecond
    have hpaired := paired_of_holds hfile hwritable ⟨_, rfl, by simp⟩ (by simp [joins]) hforest
    obtain ⟨part, hblocks, hpart⟩ := hpaired.inside
    have hinside : part.has "NNC1" := (hpart.has_iff "NNC1").2 (by simp [joins])
    have hacross : ¬part.has "NNCL" := (hpart.has_iff "NNCL").not.2 (by simp [joins])
    have hopener : (file.loadFrom stream part "NNCHEAD" 0 >>= Keyword.integers) = .ok [1, 0] :=
      gives_of_first hpart rfl (integers_words _ (by decide))
    have hnumbers : loadNumbers file stream part "NNC1" "NNC2" = .ok [(first, second)] :=
      loadNumbers_eq hpart rfl (integers_words _ hfirst) rfl (integers_words _ hsecond) rfl
    refine ⟨hpaired, ?_⟩
    rw [Reading.ofFile, hblocks, hpaired.across, List.map_singleton, Reading.ofPart, hopener]
    simp [hinside, hacross, Reading.ofPairs, hnumbers, Reading.ofOutcome, Except.map,
      Reading.append, Reading.concat, Reading.empty]
  refine ⟨?_, ?_⟩
  · obtain ⟨file, stream, hfile⟩ :=
      @KeywordFile.exists_holds (front ++ joins 2 99) .big (by decide)
    obtain ⟨hpaired, hlisted⟩ := hread hfile (by decide) (by decide)
    change Reading.ofFile file stream = ⟨[⟨0, 2, 0, 99, 0⟩], none⟩ at hlisted
    have hskip : Listing.JoinsFracture grids.sizes ⟨0, 2, 0, 99, 0⟩ :=
      .inl ⟨1, hsize, by decide, by decide⟩
    have hconnections : Connection.readAll file stream grids.sizes true = .ok [] := by
      rw [Reading.readAll_eq, hlisted, Reading.connections]
      simp [connect, hskip]
    have hbuild : build file stream true =
        .ok { grids with mapAxes := none, connections := [] } := by
      rw [hpaired.build_eq, hconnections, ok_bind]
    obtain ⟨-, flag, hflag, haccepted⟩ := (accepted_of_build file stream true).1 _ hbuild
    obtain rfl : flag = true := Except.ok.inj (hflag.symm.trans hpaired.dualPorosity)
    rw [hlisted] at haccepted
    exact ⟨file, stream, _, hfile, hbuild, hsize, congrArg Reading.listed hlisted,
      haccepted _ List.mem_cons_self⟩
  · obtain ⟨file, stream, hfile⟩ :=
      @KeywordFile.exists_holds (front ++ joins 1 99) .big (by decide)
    obtain ⟨hpaired, hlisted⟩ := hread hfile (by decide) (by decide)
    change Reading.ofFile file stream = ⟨[⟨0, 1, 0, 99, 0⟩], none⟩ at hlisted
    have hbad : ¬Listing.Accepted grids.sizes true ⟨0, 1, 0, 99, 0⟩ := by
      simp [Listing.Accepted, Listing.JoinsFracture, Listing.Within, hsize]
    obtain ⟨conflict, hrefused, hbuild⟩ := (accepted_of_build file stream true).2 none grids true
      hpaired.axes hpaired.grids hpaired.dualPorosity
      (by rw [hlisted]; exact ⟨_, List.mem_cons_self, hbad⟩)
    obtain ⟨before, l, after, hlist, -, -, hstrays⟩ := hrefused
    obtain rfl : l = ⟨0, 1, 0, 99, 0⟩ := by
      have hmem : l ∈ before ++ l :: after := List.mem_append_right _ List.mem_cons_self
      rw [← hlist, hlisted] at hmem
      exact List.mem_singleton.1 hmem
    obtain rfl : conflict = .endpointOutside 99 0 1 := by
      simpa [Strays, hsize] using hstrays
    exact ⟨file, stream, hfile, hbuild⟩

end Forest

end Reservoir
