import Mathlib.Data.List.Forall2
import Reservoir.Grid.Connection
import Reservoir.Proofs.Outcome

/-!
The connections that a file lists, and what is read of them. Each function that reads connections
gives the ones that its part of the file lists, in their order and without those of fractures, if
the cells of all others lie within their grids, and fails otherwise.
-/

namespace Reservoir

open Outcome

theorem forall₂_exists_iff {α β γ : Type} {R : α → β → Prop} {S : β → γ → Prop} {xs : List α}
    {zs : List γ} : List.Forall₂ (fun x z => ∃ y, R x y ∧ S y z) xs zs ↔
      ∃ ys, List.Forall₂ R xs ys ∧ List.Forall₂ S ys zs := by
  constructor
  · intro h
    induction h with
    | nil => exact ⟨[], .nil, .nil⟩
    | cons head tail ih =>
      obtain ⟨y, hR, hS⟩ := head
      obtain ⟨ys, hRs, hSs⟩ := ih
      exact ⟨y :: ys, .cons hR hRs, .cons hS hSs⟩
  · rintro ⟨ys, hRs, hSs⟩
    induction hRs generalizing zs with
    | nil =>
      cases hSs
      exact .nil
    | cons hR tail ih =>
      cases hSs with
      | cons hS hSs => exact .cons ⟨_, hR, hS⟩ (ih hSs)

namespace Connection

/-- Two cells as a file lists them, by their numbers from 1, with their place in the list. -/
structure Listing where
  grid₁ : Int
  number₁ : Int
  grid₂ : Int
  number₂ : Int
  position : Nat
deriving DecidableEq, Repr

namespace Listing

def connection (l : Listing) : Connection :=
  ⟨l.grid₁, (l.number₁ - 1).toNat, l.grid₂, (l.number₂ - 1).toNat, l.position⟩

/-- One of the two is numbered behind the cells of its grid, but not behind as many fractures. -/
def JoinsFracture (sizes : Sizes) (l : Listing) : Prop :=
  (∃ size, sizes l.grid₁ = some size ∧ size < l.number₁ ∧ l.number₁ ≤ 2 * size) ∨
    ∃ size, sizes l.grid₂ = some size ∧ size < l.number₂ ∧ l.number₂ ≤ 2 * size

def ofNumbers (grid₁ grid₂ : Int) (position : Nat) (numbers : List (Int × Int)) : List Listing :=
  (numbers.zipIdx position).map fun (pair, position) => ⟨grid₁, pair.1, grid₂, pair.2, position⟩

end Listing

theorem isFracture_iff {sizes : Sizes} {grid number : Int} : isFracture sizes grid number ↔
    ∃ size, sizes grid = some size ∧ size < number ∧ number ≤ 2 * size := by
  unfold isFracture
  cases sizes grid with
  | none => simp
  | some size => simp

namespace Listing

theorem joinsFracture_iff {sizes : Sizes} {l : Listing} : l.JoinsFracture sizes ↔
    (isFracture sizes l.grid₁ l.number₁ || isFracture sizes l.grid₂ l.number₂) := by
  rw [Bool.or_eq_true, isFracture_iff, isFracture_iff, JoinsFracture]

instance (sizes : Sizes) (l : Listing) : Decidable (l.JoinsFracture sizes) :=
  decidable_of_iff _ joinsFracture_iff.symm

def kept (sizes : Sizes) (dualPorosity : Bool) (listed : List Listing) : List Listing :=
  listed.filter fun l => ¬(dualPorosity ∧ l.JoinsFracture sizes)

theorem kept_append (sizes : Sizes) (dualPorosity : Bool) (front back : List Listing) :
    kept sizes dualPorosity (front ++ back) =
      kept sizes dualPorosity front ++ kept sizes dualPorosity back :=
  List.filter_append ..

theorem kept_cons (sizes : Sizes) (dualPorosity : Bool) (l : Listing) (listed : List Listing) :
    kept sizes dualPorosity (l :: listed) =
      if dualPorosity ∧ l.JoinsFracture sizes then kept sizes dualPorosity listed
      else l :: kept sizes dualPorosity listed := by
  simp only [kept, List.filter_cons, decide_eq_true_eq, ite_not]

theorem skipped_iff {sizes : Sizes} {dualPorosity : Bool} {l : Listing} :
    (dualPorosity && (isFracture sizes l.grid₁ l.number₁ || isFracture sizes l.grid₂ l.number₂)) ↔
      dualPorosity ∧ l.JoinsFracture sizes := by
  rw [Bool.and_eq_true, joinsFracture_iff]

end Listing

def Listing.Within (sizes : Sizes) (l : Listing) : Prop :=
  (∃ size, sizes l.grid₁ = some size ∧ 1 ≤ l.number₁ ∧ l.number₁ ≤ size) ∧
    ∃ size, sizes l.grid₂ = some size ∧ 1 ≤ l.number₂ ∧ l.number₂ ≤ size

/-- The connections are the ones that are kept of a list, in its order, and all of their cells lie
within their grids. -/
def Keeps (sizes : Sizes) (dualPorosity : Bool) (listed : List Listing)
    (connections : List Connection) : Prop :=
  (∀ l ∈ Listing.kept sizes dualPorosity listed, l.Within sizes) ∧
    (Listing.kept sizes dualPorosity listed).map Listing.connection = connections

section Kept

variable {sizes : Sizes} {dualPorosity : Bool} {l : Listing} {listed front back : List Listing}
  {connections : List Connection}

theorem keeps_nil_iff : Keeps sizes dualPorosity [] connections ↔ connections = [] := by
  simp [Keeps, Listing.kept, eq_comm]

theorem keeps_cons_iff_of_skipped (h : dualPorosity ∧ l.JoinsFracture sizes) :
    Keeps sizes dualPorosity (l :: listed) connections ↔
      Keeps sizes dualPorosity listed connections := by
  rw [Keeps, Keeps, Listing.kept_cons, if_pos h]

theorem keeps_cons_iff_of_kept (h : ¬(dualPorosity ∧ l.JoinsFracture sizes)) :
    Keeps sizes dualPorosity (l :: listed) connections ↔
      l.Within sizes ∧
        ∃ more, Keeps sizes dualPorosity listed more ∧ l.connection :: more = connections := by
  simp only [Keeps, Listing.kept_cons, if_neg h, List.forall_mem_cons, List.map_cons, and_assoc,
    exists_and_left, exists_eq_left']

theorem keeps_append_iff : Keeps sizes dualPorosity (front ++ back) connections ↔
    ∃ first, Keeps sizes dualPorosity front first ∧
      ∃ second, Keeps sizes dualPorosity back second ∧ first ++ second = connections := by
  simp only [Keeps, Listing.kept_append, List.forall_mem_append, List.map_append, and_assoc,
    exists_and_left, exists_eq_left']

theorem keeps_flatten_iff {parts : List (List Listing)} :
    Keeps sizes dualPorosity parts.flatten connections ↔
      ∃ reads, List.Forall₂ (Keeps sizes dualPorosity) parts reads ∧
        reads.flatten = connections := by
  induction parts generalizing connections with
  | nil => simp [keeps_nil_iff, eq_comm]
  | cons part parts ih =>
    simp only [List.flatten_cons, keeps_append_iff, ih, List.forall₂_cons_left_iff]
    constructor
    · rintro ⟨first, hfirst, -, ⟨reads, hreads, rfl⟩, rfl⟩
      exact ⟨first :: reads, ⟨first, reads, hfirst, hreads, rfl⟩, rfl⟩
    · rintro ⟨-, ⟨first, reads, hfirst, hreads, rfl⟩, rfl⟩
      exact ⟨first, hfirst, _, ⟨reads, hreads, rfl⟩, rfl⟩

theorem endpoint_eq_ok {grid number : Int} {cell : Nat} : endpoint sizes grid number = .ok cell ↔
    (∃ size, sizes grid = some size ∧ 1 ≤ number ∧ number ≤ size) ∧
      (number - 1).toNat = cell := by
  unfold endpoint
  cases sizes grid with
  | none => simp
  | some size =>
    by_cases hrange : 1 ≤ number ∧ number ≤ size
    · simp [hrange]
    · simp [hrange]

theorem ofNumbers_eq_ok {grid₁ grid₂ : Int} {position : Nat} {numbers : List (Int × Int)} :
    ofNumbers sizes dualPorosity grid₁ grid₂ position numbers = .ok connections ↔
      Keeps sizes dualPorosity (Listing.ofNumbers grid₁ grid₂ position numbers) connections := by
  induction numbers generalizing position connections with
  | nil =>
    rw [ofNumbers, Except.ok.injEq, eq_comm]
    exact keeps_nil_iff.symm
  | cons pair numbers ih =>
    obtain ⟨a, b⟩ := pair
    have hlist : Listing.ofNumbers grid₁ grid₂ position ((a, b) :: numbers) =
        ⟨grid₁, a, grid₂, b, position⟩ ::
          Listing.ofNumbers grid₁ grid₂ (position + 1) numbers := rfl
    have hfracture := @Listing.skipped_iff sizes dualPorosity ⟨grid₁, a, grid₂, b, position⟩
    rw [hlist, ofNumbers]
    split
    · next hskip => rw [keeps_cons_iff_of_skipped (hfracture.1 hskip), ih]
    · next hread =>
      rw [keeps_cons_iff_of_kept (mt hfracture.2 hread)]
      simp only [bind_eq_ok, endpoint_eq_ok, ih, pure_eq, Except.ok.injEq]
      constructor
      · rintro ⟨_, ⟨hfirst, rfl⟩, _, ⟨hsecond, rfl⟩, more, hmore, rfl⟩
        exact ⟨⟨hfirst, hsecond⟩, more, hmore, rfl⟩
      · rintro ⟨⟨hfirst, hsecond⟩, more, hmore, rfl⟩
        exact ⟨_, ⟨hfirst, rfl⟩, _, ⟨hsecond, rfl⟩, more, hmore, rfl⟩

end Kept

section Reading

variable (file : KeywordFile) (stream : Bytes)

/-- The first keyword of a name in a part holds these integers. -/
def Gives (part : Catalog) (name : String) (values : List Int) : Prop :=
  (file.loadFrom stream part name 0 >>= Keyword.integers) = .ok values

def Pairs (part : Catalog) (first second : String) (grid₁ grid₂ : Int) (listed : List Listing) :
    Prop :=
  ∃ xs ys, Gives file stream part first xs ∧ Gives file stream part second ys ∧
    xs.length = ys.length ∧ listed = Listing.ofNumbers grid₁ grid₂ 0 (xs.zip ys)

/-- What a part opened by `NNCHEAD` lists: pairs of one grid if it has an `NNC1`, then pairs of the
main grid and that grid if it has an `NNCL`. Without a second value the grid is the main grid. -/
def PartLists (part : Catalog) (listed : List Listing) : Prop :=
  ∃ head inside across, Gives file stream part "NNCHEAD" head ∧
    (if part.has "NNC1" then
      Pairs file stream part "NNC1" "NNC2" (head.getD 1 0) (head.getD 1 0) inside
    else inside = []) ∧
    (if part.has "NNCL" then Pairs file stream part "NNCG" "NNCL" 0 (head.getD 1 0) across
    else across = []) ∧
    listed = inside ++ across

/-- What a part opened by `NNCHEADA` lists: pairs of the first two grids that it names. -/
def AmalgamationLists (part : Catalog) (listed : List Listing) : Prop :=
  ∃ grid₁ grid₂ rest, Gives file stream part "NNCHEADA" (grid₁ :: grid₂ :: rest) ∧
    Pairs file stream part "NNA1" "NNA2" grid₁ grid₂ listed

/-- What all parts of a file list. -/
def Declares (listed : List Listing) : Prop :=
  ∃ parts amalgamations,
    List.Forall₂ (PartLists file stream) (file.catalog.blocks "NNCHEAD") parts ∧
    List.Forall₂ (AmalgamationLists file stream) (file.catalog.blocks "NNCHEADA") amalgamations ∧
    listed = parts.flatten ++ amalgamations.flatten

end Reading

section Parts

variable {file : KeywordFile} {stream : Bytes} {sizes : Sizes} {dualPorosity : Bool}
  {part : Catalog}

def readListed (file : KeywordFile) (stream : Bytes) (sizes : Sizes) (dualPorosity : Bool)
    (part : Catalog) (opener first second : String) (grid₁ grid₂ : Int) :
    Outcome (List Connection) :=
  if part.has opener then
    loadNumbers file stream part first second >>= fun numbers =>
      ofPairing sizes dualPorosity ⟨grid₁, grid₂, numbers⟩
  else .ok []

theorem readPart_bind : readPart file stream sizes dualPorosity part =
    (file.loadFrom stream part "NNCHEAD" 0 >>= Keyword.integers >>= fun head =>
      readListed file stream sizes dualPorosity part "NNC1" "NNC1" "NNC2" (head.getD 1 0)
          (head.getD 1 0) >>= fun inside =>
        readListed file stream sizes dualPorosity part "NNCL" "NNCG" "NNCL" 0 (head.getD 1 0) >>=
          fun across => .ok (inside ++ across)) := by
  simp only [readPart, readListed, pure_eq]
  cases file.loadFrom stream part "NNCHEAD" 0 with
  | error fault => rfl
  | ok opener =>
    simp only [ok_bind]
    cases opener.integers with
    | error fault => rfl
    | ok head =>
      simp only [ok_bind]
      cases part.has "NNC1" <;> cases part.has "NNCL" <;> simp

end Parts

section Read

variable {file : KeywordFile} {stream : Bytes} {sizes : Sizes} {dualPorosity : Bool}
  {part : Catalog} {connections : List Connection} {first second : String} {grid₁ grid₂ : Int}

theorem loadNumbers_eq_ok {numbers : List (Int × Int)} :
    loadNumbers file stream part first second = .ok numbers ↔
      ∃ xs ys, Gives file stream part first xs ∧ Gives file stream part second ys ∧
        xs.length = ys.length ∧ xs.zip ys = numbers := by
  have hbind : loadNumbers file stream part first second =
      (file.loadFrom stream part first 0 >>= Keyword.integers >>= fun xs =>
        file.loadFrom stream part second 0 >>= Keyword.integers >>= fun ys =>
          if xs.length = ys.length then .ok (xs.zip ys)
          else .error
            (.sizeMismatch (second ++ " paired with " ++ first) xs.length ys.length)) := by
    simp only [loadNumbers, bind_assoc, pure_eq]
  rw [hbind]
  constructor
  · intro h
    obtain ⟨xs, hxs, h⟩ := bind_eq_ok.1 h
    obtain ⟨ys, hys, h⟩ := bind_eq_ok.1 h
    split at h
    · next hlength => exact ⟨xs, ys, hxs, hys, hlength, Except.ok.inj h⟩
    · cases h
  · rintro ⟨xs, ys, hxs, hys, hlength, rfl⟩
    exact bind_eq_ok.2 ⟨xs, hxs, bind_eq_ok.2 ⟨ys, hys, if_pos hlength⟩⟩

theorem ofPairing_eq_ok :
    (loadNumbers file stream part first second >>= fun numbers =>
      ofPairing sizes dualPorosity ⟨grid₁, grid₂, numbers⟩) = .ok connections ↔
      ∃ listed, Pairs file stream part first second grid₁ grid₂ listed ∧
        Keeps sizes dualPorosity listed connections := by
  simp only [bind_eq_ok, loadNumbers_eq_ok, ofPairing, ofNumbers_eq_ok]
  constructor
  · rintro ⟨_, ⟨xs, ys, hxs, hys, hlength, rfl⟩, hkeeps⟩
    exact ⟨_, ⟨xs, ys, hxs, hys, hlength, rfl⟩, hkeeps⟩
  · rintro ⟨_, ⟨xs, ys, hxs, hys, hlength, rfl⟩, hkeeps⟩
    exact ⟨_, ⟨xs, ys, hxs, hys, hlength, rfl⟩, hkeeps⟩

theorem readListed_eq_ok {opener : String} :
    readListed file stream sizes dualPorosity part opener first second grid₁ grid₂ =
        .ok connections ↔
      ∃ listed, (if part.has opener then
          Pairs file stream part first second grid₁ grid₂ listed else listed = []) ∧
        Keeps sizes dualPorosity listed connections := by
  by_cases hhas : part.has opener
  · simp only [readListed, hhas, if_true, ofPairing_eq_ok]
  · simp [readListed, hhas, keeps_nil_iff, eq_comm]

theorem readPart_eq_ok : readPart file stream sizes dualPorosity part = .ok connections ↔
    ∃ listed, PartLists file stream part listed ∧ Keeps sizes dualPorosity listed connections := by
  rw [readPart_bind]
  constructor
  · intro h
    obtain ⟨head, hhead, h⟩ := bind_eq_ok.1 h
    obtain ⟨front, hfront, h⟩ := bind_eq_ok.1 h
    obtain ⟨back, hback, h⟩ := bind_eq_ok.1 h
    obtain ⟨inside, hinside, hkeeps⟩ := readListed_eq_ok.1 hfront
    obtain ⟨across, hacross, hkeeps'⟩ := readListed_eq_ok.1 hback
    exact ⟨_, ⟨head, inside, across, hhead, hinside, hacross, rfl⟩,
      keeps_append_iff.2 ⟨front, hkeeps, back, hkeeps', Except.ok.inj h⟩⟩
  · rintro ⟨_, ⟨head, inside, across, hhead, hinside, hacross, rfl⟩, hkeeps⟩
    obtain ⟨front, hfront, back, hback, rfl⟩ := keeps_append_iff.1 hkeeps
    exact bind_eq_ok.2 ⟨head, hhead, bind_eq_ok.2 ⟨front, readListed_eq_ok.2 ⟨_, hinside, hfront⟩,
      bind_eq_ok.2 ⟨back, readListed_eq_ok.2 ⟨_, hacross, hback⟩, rfl⟩⟩⟩

theorem readAmalgamation_eq_ok {index : Nat} :
    readAmalgamation file stream sizes dualPorosity index part = .ok connections ↔
      ∃ listed, AmalgamationLists file stream part listed ∧
        Keeps sizes dualPorosity listed connections := by
  constructor
  · intro h
    obtain ⟨opener, hopener, h⟩ := bind_eq_ok.1 h
    obtain ⟨head, hhead, h⟩ := bind_eq_ok.1 h
    split at h
    · next grid₁ grid₂ rest =>
      obtain ⟨listed, hpairs, hkeeps⟩ := ofPairing_eq_ok.1 h
      exact ⟨listed, ⟨grid₁, grid₂, rest, bind_eq_ok.2 ⟨opener, hopener, hhead⟩, hpairs⟩, hkeeps⟩
    · cases h
  · rintro ⟨listed, ⟨grid₁, grid₂, rest, hhead, hpairs⟩, hkeeps⟩
    obtain ⟨opener, hopener, hvalues⟩ := bind_eq_ok.1 hhead
    exact bind_eq_ok.2 ⟨opener, hopener, bind_eq_ok.2 ⟨_, hvalues,
      ofPairing_eq_ok.2 ⟨listed, hpairs, hkeeps⟩⟩⟩

theorem mapM_flatten_eq {α : Type} {read : α → Outcome (List Connection)}
    {Lists : α → List Listing → Prop} {xs : List α}
    (hread : ∀ x connections, read x = .ok connections ↔
      ∃ listed, Lists x listed ∧ Keeps sizes dualPorosity listed connections) :
    (∃ reads, xs.mapM read = .ok reads ∧ reads.flatten = connections) ↔
      ∃ parts, List.Forall₂ Lists xs parts ∧
        Keeps sizes dualPorosity parts.flatten connections := by
  simp only [mapM_eq_ok, hread, forall₂_exists_iff, keeps_flatten_iff]
  constructor
  · rintro ⟨reads, ⟨parts, hparts, hreads⟩, hflatten⟩
    exact ⟨parts, hparts, reads, hreads, hflatten⟩
  · rintro ⟨parts, hparts, reads, hreads, hflatten⟩
    exact ⟨reads, ⟨parts, hparts, hreads⟩, hflatten⟩

/-- The connections that are read are the declared ones that are kept, sorted. They are read just
where all their cells lie within their grids. -/
theorem readAll_eq_ok : readAll file stream sizes dualPorosity = .ok connections ↔
    ∃ listed, Declares file stream listed ∧
      ∃ read, Keeps sizes dualPorosity listed read ∧ read.mergeSort le = connections := by
  have hparts := fun connections => @mapM_flatten_eq sizes dualPorosity connections _
    (readPart file stream sizes dualPorosity) (PartLists file stream)
    (file.catalog.blocks "NNCHEAD") fun _ _ => readPart_eq_ok
  have hamalgamations := fun connections => @mapM_flatten_eq sizes dualPorosity connections _
    (fun x : Catalog × Nat => readAmalgamation file stream sizes dualPorosity x.2 x.1)
    (fun x => AmalgamationLists file stream x.1) (file.catalog.blocks "NNCHEADA").zipIdx
    fun _ _ => readAmalgamation_eq_ok
  simp only [← List.forall₂_map_left_iff, List.zipIdx_map_fst] at hamalgamations
  constructor
  · intro h
    obtain ⟨front, hfront, h⟩ := bind_eq_ok.1 h
    obtain ⟨back, hback, h⟩ := bind_eq_ok.1 h
    obtain ⟨parts, hlists, hkeeps⟩ := (hparts _).1 ⟨front, hfront, rfl⟩
    obtain ⟨parts', hlists', hkeeps'⟩ := (hamalgamations _).1 ⟨back, hback, rfl⟩
    exact ⟨_, ⟨parts, parts', hlists, hlists', rfl⟩, _,
      keeps_append_iff.2 ⟨_, hkeeps, _, hkeeps', rfl⟩, Except.ok.inj h⟩
  · rintro ⟨_, ⟨parts, parts', hlists, hlists', rfl⟩, _, hkeeps, rfl⟩
    obtain ⟨_, hfirst, _, hsecond, rfl⟩ := keeps_append_iff.1 hkeeps
    obtain ⟨front, hfront, rfl⟩ := (hparts _).2 ⟨parts, hlists, hfirst⟩
    obtain ⟨back, hback, rfl⟩ := (hamalgamations _).2 ⟨parts', hlists', hsecond⟩
    exact bind_eq_ok.2 ⟨front, hfront, bind_eq_ok.2 ⟨back, hback, rfl⟩⟩

end Read

end Connection

end Reservoir
