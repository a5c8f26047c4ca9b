import Reservoir.Proofs.Grid.Listed

/-!
Reading pair by pair. The pairs of a file are read in its order up to the first fault, and each is
made a connection or skipped before the next one is read. So what a file gives depends on its pairs
one after the other, whichever parts they stand in.
-/

namespace Reservoir

open Outcome

namespace Connection

/-- The pairs that are read of a file, and the fault that ended the reading. -/
structure Reading where
  listed : List Listing
  fault : Option Fault

namespace Reading

def empty : Reading := ⟨[], none⟩

def ofOutcome : Outcome (List Listing) → Reading
  | .ok listed => ⟨listed, none⟩
  | .error fault => ⟨[], some fault⟩

def append (first second : Reading) : Reading :=
  match first.fault with
  | none => ⟨first.listed ++ second.listed, second.fault⟩
  | some fault => ⟨first.listed, some fault⟩

def concat : List Reading → Reading
  | [] => empty
  | r :: rs => r.append (concat rs)

section File

variable (file : KeywordFile) (stream : Bytes)

def ofPairs (part : Catalog) (first second : String) (grid₁ grid₂ : Int) : Reading :=
  ofOutcome ((loadNumbers file stream part first second).map (Listing.ofNumbers grid₁ grid₂ 0))

def ofPart (part : Catalog) : Reading :=
  match file.loadFrom stream part "NNCHEAD" 0 >>= Keyword.integers with
  | .error fault => ⟨[], some fault⟩
  | .ok head =>
    let grid := head.getD 1 0
    let inside :=
      if part.has "NNC1" then ofPairs file stream part "NNC1" "NNC2" grid grid else empty
    let across :=
      if part.has "NNCL" then ofPairs file stream part "NNCG" "NNCL" 0 grid else empty
    inside.append across

def ofAmalgamation (part : Catalog) (index : Nat) : Reading :=
  match file.loadFrom stream part "NNCHEADA" 0 >>= Keyword.integers with
  | .error fault => ⟨[], some fault⟩
  | .ok (grid₁ :: grid₂ :: _) => ofPairs file stream part "NNA1" "NNA2" grid₁ grid₂
  | .ok head => ⟨[], some (.malformed (.connectionHead index head.length))⟩

def ofFile : Reading :=
  (concat ((file.catalog.blocks "NNCHEAD").map (ofPart file stream))).append
    (concat ((file.catalog.blocks "NNCHEADA").zipIdx.map fun (part, index) =>
      ofAmalgamation file stream part index))

end File

end Reading

def connect (sizes : Sizes) (dualPorosity : Bool) (l : Listing) : Outcome (List Connection) :=
  if dualPorosity ∧ l.JoinsFracture sizes then .ok []
  else
    endpoint sizes l.grid₁ l.number₁ >>= fun cell₁ =>
      endpoint sizes l.grid₂ l.number₂ >>= fun cell₂ =>
        .ok [⟨l.grid₁, cell₁, l.grid₂, cell₂, l.position⟩]

def Reading.connections (sizes : Sizes) (dualPorosity : Bool) (r : Reading) :
    Outcome (List Connection) :=
  r.listed.mapM (connect sizes dualPorosity) >>= fun read =>
    match r.fault with
    | none => .ok read.flatten
    | some fault => .error fault

section Equations

variable {sizes : Sizes} {dualPorosity : Bool} {file : KeywordFile} {stream : Bytes}
  {part : Catalog}

theorem ofNumbers_eq_connect (grid₁ grid₂ : Int) (position : Nat) (numbers : List (Int × Int)) :
    ofNumbers sizes dualPorosity grid₁ grid₂ position numbers =
      (Listing.ofNumbers grid₁ grid₂ position numbers).mapM (connect sizes dualPorosity) >>=
        fun read => .ok read.flatten := by
  induction numbers generalizing position with
  | nil => rfl
  | cons pair numbers ih =>
    obtain ⟨a, b⟩ := pair
    have hlist : Listing.ofNumbers grid₁ grid₂ position ((a, b) :: numbers) =
        ⟨grid₁, a, grid₂, b, position⟩ ::
          Listing.ofNumbers grid₁ grid₂ (position + 1) numbers := rfl
    have hfracture := @Listing.skipped_iff sizes dualPorosity ⟨grid₁, a, grid₂, b, position⟩
    simp only [hlist, ofNumbers, List.mapM_cons, connect, ih]
    by_cases hskip : dualPorosity ∧
        Listing.JoinsFracture sizes ⟨grid₁, a, grid₂, b, position⟩
    · simp only [if_pos hskip, if_pos (hfracture.2 hskip), ok_bind, bind_assoc, pure_eq,
        List.flatten_cons, List.nil_append]
    · simp only [if_neg hskip, if_neg (mt hfracture.1 hskip), bind_assoc, ok_bind, pure_eq,
        List.flatten_cons, List.singleton_append]

namespace Reading

theorem connections_ofOutcome (x : Outcome (List Listing)) :
    (ofOutcome x).connections sizes dualPorosity =
      x >>= fun listed => listed.mapM (connect sizes dualPorosity) >>= fun read =>
        .ok read.flatten := by
  cases x <;> rfl

theorem connections_append (first second : Reading) :
    (first.append second).connections sizes dualPorosity =
      first.connections sizes dualPorosity >>= fun xs =>
        second.connections sizes dualPorosity >>= fun ys => .ok (xs ++ ys) := by
  obtain ⟨listed, fault⟩ := first
  cases fault with
  | some fault => simp only [append, connections, bind_assoc, error_bind]
  | none =>
    simp only [append, connections, List.mapM_append, bind_assoc, ok_bind, pure_eq,
      List.flatten_append]
    cases second.fault <;> simp only [ok_bind, error_bind]

theorem connections_concat {α : Type} (read : α → Reading) (xs : List α) :
    (concat (xs.map read)).connections sizes dualPorosity =
      xs.mapM (fun x => (read x).connections sizes dualPorosity) >>= fun reads =>
        .ok reads.flatten := by
  induction xs with
  | nil => rfl
  | cons x xs ih =>
    simp only [List.map_cons, concat, connections_append, ih, List.mapM_cons, bind_assoc, ok_bind,
      pure_eq, List.flatten_cons]

theorem connections_ofPairs (first second : String) (grid₁ grid₂ : Int) :
    (ofPairs file stream part first second grid₁ grid₂).connections sizes dualPorosity =
      loadNumbers file stream part first second >>= fun numbers =>
        ofPairing sizes dualPorosity ⟨grid₁, grid₂, numbers⟩ := by
  simp only [ofPairs, connections_ofOutcome, ofPairing, ofNumbers_eq_connect]
  cases loadNumbers file stream part first second <;> rfl

theorem connections_ofListed (opener first second : String) (grid₁ grid₂ : Int) :
    (if part.has opener then ofPairs file stream part first second grid₁ grid₂
      else empty).connections sizes dualPorosity =
      readListed file stream sizes dualPorosity part opener first second grid₁ grid₂ := by
  rw [readListed]
  split
  · exact connections_ofPairs ..
  · rfl

theorem connections_ofPart (part : Catalog) :
    (ofPart file stream part).connections sizes dualPorosity =
      readPart file stream sizes dualPorosity part := by
  rw [readPart_bind, ofPart]
  cases file.loadFrom stream part "NNCHEAD" 0 >>= Keyword.integers with
  | error fault => rfl
  | ok head => simp only [connections_append, connections_ofListed, ok_bind]

theorem connections_ofAmalgamation (part : Catalog) (index : Nat) :
    (ofAmalgamation file stream part index).connections sizes dualPorosity =
      readAmalgamation file stream sizes dualPorosity index part := by
  rw [readAmalgamation, ofAmalgamation]
  cases file.loadFrom stream part "NNCHEADA" 0 with
  | error fault => rfl
  | ok opener =>
    rw [ok_bind, ok_bind]
    cases opener.integers with
    | error fault => rfl
    | ok head =>
      rcases head with _ | ⟨grid₁, _ | ⟨grid₂, rest⟩⟩
      · rfl
      · rfl
      · exact connections_ofPairs ..

theorem readAll_eq (file : KeywordFile) (stream : Bytes) (sizes : Sizes) (dualPorosity : Bool) :
    readAll file stream sizes dualPorosity =
      (ofFile file stream).connections sizes dualPorosity >>= fun read =>
        .ok (read.mergeSort le) := by
  simp only [readAll, ofFile, connections_append, connections_concat, connections_ofPart,
    connections_ofAmalgamation, bind_assoc, ok_bind, pure_eq]

end Reading

end Equations

section Lists

variable {file : KeywordFile} {stream : Bytes} {part : Catalog}

namespace Reading

theorem append_of_fault_none {first second : Reading} (h : (first.append second).fault = none) :
    first.fault = none ∧ second.fault = none ∧
      (first.append second).listed = first.listed ++ second.listed := by
  obtain ⟨listed, fault⟩ := first
  cases fault with
  | none => exact ⟨rfl, h, rfl⟩
  | some fault => cases h

theorem concat_of_fault_none {rs : List Reading} (h : (concat rs).fault = none) :
    (∀ r ∈ rs, r.fault = none) ∧ (concat rs).listed = (rs.map Reading.listed).flatten := by
  induction rs with
  | nil => exact ⟨List.forall_mem_nil _, rfl⟩
  | cons r rs ih =>
    obtain ⟨hfirst, hrest, hlisted⟩ := append_of_fault_none h
    obtain ⟨hall, hback⟩ := ih hrest
    exact ⟨List.forall_mem_cons.2 ⟨hfirst, hall⟩, by
      rw [concat, hlisted, hback, List.map_cons, List.flatten_cons]⟩

theorem pairs_of_fault_none {first second : String} {grid₁ grid₂ : Int}
    (h : (ofPairs file stream part first second grid₁ grid₂).fault = none) :
    Pairs file stream part first second grid₁ grid₂
      (ofPairs file stream part first second grid₁ grid₂).listed := by
  unfold ofPairs at h ⊢
  cases hnumbers : loadNumbers file stream part first second with
  | error fault =>
    rw [hnumbers] at h
    cases h
  | ok numbers =>
    obtain ⟨xs, ys, hxs, hys, hlength, rfl⟩ := loadNumbers_eq_ok.1 hnumbers
    exact ⟨xs, ys, hxs, hys, hlength, rfl⟩

theorem partLists_of_fault_none (h : (ofPart file stream part).fault = none) :
    PartLists file stream part (ofPart file stream part).listed := by
  unfold ofPart at h ⊢
  cases hhead : file.loadFrom stream part "NNCHEAD" 0 >>= Keyword.integers with
  | error fault =>
    rw [hhead] at h
    cases h
  | ok head =>
    rw [hhead] at h
    obtain ⟨hinside, hacross, hlisted⟩ := append_of_fault_none h
    refine ⟨head, _, _, hhead, ?_, ?_, hlisted⟩
    · split at hinside
      · next hhas =>
        rw [if_pos hhas, if_pos hhas]
        exact pairs_of_fault_none hinside
      · next hhas => rw [if_neg hhas, if_neg hhas, empty]
    · split at hacross
      · next hhas =>
        rw [if_pos hhas, if_pos hhas]
        exact pairs_of_fault_none hacross
      · next hhas => rw [if_neg hhas, if_neg hhas, empty]

theorem amalgamationLists_of_fault_none {index : Nat}
    (h : (ofAmalgamation file stream part index).fault = none) :
    AmalgamationLists file stream part (ofAmalgamation file stream part index).listed := by
  unfold ofAmalgamation at h ⊢
  split at h
  · cases h
  · next grid₁ grid₂ rest hhead =>
    exact ⟨grid₁, grid₂, rest, hhead, pairs_of_fault_none h⟩
  · cases h

theorem declares_of_fault_none (h : (ofFile file stream).fault = none) :
    Declares file stream (ofFile file stream).listed := by
  obtain ⟨hparts, hamalgamations, hlisted⟩ := append_of_fault_none h
  obtain ⟨hparts, hfront⟩ := concat_of_fault_none hparts
  obtain ⟨hamalgamations, hback⟩ := concat_of_fault_none hamalgamations
  refine ⟨_, _, ?_, ?_, by rw [ofFile, hlisted, hfront, hback]⟩
  · rw [List.map_map, List.forall₂_map_right_iff, List.forall₂_same]
    exact fun part hpart => partLists_of_fault_none (hparts _ (List.mem_map_of_mem hpart))
  · have hzip := List.zipIdx_map_fst 0 (file.catalog.blocks "NNCHEADA")
    rw [List.map_map, List.forall₂_map_right_iff, ← hzip, List.forall₂_map_left_iff, hzip,
      List.forall₂_same]
    exact fun x hx => amalgamationLists_of_fault_none (hamalgamations _ (List.mem_map_of_mem hx))

end Reading

end Lists

end Connection

end Reservoir
