import Reservoir.Proofs.Keyword.Contents
import Reservoir.Summary.Catalog

/-!
What a file stores of a catalog: a list for each field of the variables, with one element for each
of them, and what there is about the run. A file is read as a catalog just where all of this is
read.
-/

namespace Reservoir

open Outcome

theorem Keyword.length_strings {k : Keyword} {values : List String} (hk : k.Whole)
    (h : k.strings = .ok values) : values.length = k.count := by
  obtain ⟨⟨⟩, hcheck, h⟩ := bind_eq_ok.1 h
  cases h
  unfold checkString at hcheck
  split at hcheck
  · next hstring =>
    rw [List.length_map, length_slots hk (ElementType.size_ne_zero_of_isString hstring)]
  · cases hcheck

namespace SummaryCatalog

variable {calendar : Calendar} {file : KeywordFile} {stream : Bytes} {separator : String}
  {c : SummaryCatalog} {count : Nat}

theorem checkParallel_eq_ok {keyword : Keyword} (h : checkParallel keyword count = .ok ()) :
    keyword.count = count := by
  unfold checkParallel at h
  split at h
  · next hcount => exact hcount
  · cases h

theorem whole_of_required {name : String} {keyword : Keyword}
    (h : required file stream name = .ok keyword) : keyword.Whole := by
  unfold required at h
  split at h
  · next hload =>
    cases h
    exact KeywordFile.whole_of_loadFrom hload
  · split at h <;> cases h

theorem count_of_parallel {name : String} {keyword : Keyword}
    (h : parallel file stream count name = .ok keyword) :
    keyword.Whole ∧ keyword.count = count := by
  obtain ⟨found, hfound, h⟩ := bind_eq_ok.1 h
  obtain ⟨⟨⟩, hcount, h⟩ := bind_eq_ok.1 h
  cases h
  exact ⟨whole_of_required hfound, checkParallel_eq_ok hcount⟩

theorem count_of_parallel? {name : String} {keyword : Keyword}
    (h : parallel? file stream count name = .ok (some keyword)) :
    keyword.Whole ∧ keyword.count = count := by
  obtain ⟨found, hfound, h⟩ := bind_eq_ok.1 h
  cases found with
  | none => cases h
  | some found =>
    obtain ⟨⟨⟩, hcount, h⟩ := bind_eq_ok.1 h
    cases h
    exact ⟨KeywordFile.whole_of_loadOptional hfound, checkParallel_eq_ok hcount⟩

theorem length_numbers {numbers : List Int} (h : readNumbers file stream count = .ok numbers) :
    numbers.length = count := by
  obtain ⟨found, hfound, h⟩ := bind_eq_ok.1 h
  cases found with
  | none =>
    cases h
    exact List.length_replicate
  | some keyword =>
    obtain ⟨hwhole, hcount⟩ := count_of_parallel? hfound
    exact (Keyword.length_integers hwhole h).trans hcount

theorem length_places {places : List (Option (String × CellAddress))}
    (h : readPlaces file stream count = .ok places) : places.length = count := by
  obtain ⟨found, hfound, h⟩ := bind_eq_ok.1 h
  cases found with
  | none =>
    cases h
    exact List.length_replicate
  | some keyword =>
    obtain ⟨i, hi, h⟩ := bind_eq_ok.1 h
    obtain ⟨j, hj, h⟩ := bind_eq_ok.1 h
    obtain ⟨k, hk, h⟩ := bind_eq_ok.1 h
    obtain ⟨names, hnames, h⟩ := bind_eq_ok.1 h
    cases h
    have haxis : ∀ {name : String} {values : List Int},
        (parallel file stream count name >>= Keyword.integers) = .ok values →
          values.length = count := by
      intro name values hvalues
      obtain ⟨keyword, hkeyword, hvalues⟩ := bind_eq_ok.1 hvalues
      obtain ⟨hwhole, hcount⟩ := count_of_parallel hkeyword
      exact (Keyword.length_integers hwhole hvalues).trans hcount
    obtain ⟨hwhole, hcount⟩ := count_of_parallel? hfound
    have hlength := (Keyword.length_strings hwhole hnames).trans hcount
    simp only [List.length_zipWith, List.length_zip, hlength, haxis hi, haxis hj, haxis hk,
      Nat.min_self]

/-- The lists that the variables are made of, and what there is about the run. -/
structure Stored where
  keywords : List String
  owners : List String
  units : List String
  numbers : List Int
  extent : Extent
  restartStep : Option Int
  start : Moment
  restartCase : Option String
  places : List (Option (String × CellAddress))

def ownersName (file : KeywordFile) : String :=
  if file.catalog.has "WGNAMES" then "WGNAMES" else "NAMES"

namespace Stored

variable {x : Stored}

structure In (calendar : Calendar) (x : Stored) (file : KeywordFile) (stream : Bytes) :
    Prop where
  keywords : (required file stream "KEYWORDS" >>= Keyword.strings) = .ok x.keywords
  owners : (parallel file stream x.keywords.length (ownersName file) >>= Keyword.strings) =
    .ok x.owners
  units : (parallel file stream x.keywords.length "UNITS" >>= Keyword.strings) = .ok x.units
  numbers : readNumbers file stream x.keywords.length = .ok x.numbers
  dimensions : readDimensions file stream = .ok (x.extent, x.restartStep)
  start : readStart calendar file stream = .ok x.start
  restartCase : readRestartCase file stream = .ok x.restartCase
  places : readPlaces file stream x.keywords.length = .ok x.places

def members (x : Stored) : List Variable :=
  (x.keywords.zip (x.owners.zip (x.numbers.zip (x.units.zip x.places)))).map
    fun (keyword, owner, number, unit, place) =>
      variableOf x.extent keyword owner number unit place

def catalog (x : Stored) (calendar : Calendar) (separator : String) : SummaryCatalog :=
  ⟨x.members, x.extent, x.restartStep, x.restartCase, calendar, x.start, separator⟩

theorem getElem?_members {p : Nat} {v : Variable} (h : x.members[p]? = some v) :
    ∃ keyword owner number unit place, x.keywords[p]? = some keyword ∧
      x.owners[p]? = some owner ∧ x.numbers[p]? = some number ∧ x.units[p]? = some unit ∧
      x.places[p]? = some place ∧ variableOf x.extent keyword owner number unit place = v := by
  rw [members, List.getElem?_map, Option.map_eq_some_iff] at h
  obtain ⟨⟨keyword, owner, number, unit, place⟩, h, rfl⟩ := h
  obtain ⟨hkeyword, h⟩ := List.getElem?_zip_eq_some.1 h
  obtain ⟨howner, h⟩ := List.getElem?_zip_eq_some.1 h
  obtain ⟨hnumber, h⟩ := List.getElem?_zip_eq_some.1 h
  obtain ⟨hunit, hplace⟩ := List.getElem?_zip_eq_some.1 h
  exact ⟨keyword, owner, number, unit, place, hkeyword, howner, hnumber, hunit, hplace, rfl⟩

theorem length_of_parallel {name : String} {values : List String}
    (h : (parallel file stream count name >>= Keyword.strings) = .ok values) :
    values.length = count := by
  obtain ⟨keyword, hkeyword, h⟩ := bind_eq_ok.1 h
  obtain ⟨hwhole, hcount⟩ := count_of_parallel hkeyword
  exact (Keyword.length_strings hwhole h).trans hcount

theorem In.map_keyword (h : x.In calendar file stream) :
    x.members.map Variable.keyword = x.keywords.map Text.trimmed := by
  have hrest : x.keywords.length ≤
      (x.owners.zip (x.numbers.zip (x.units.zip x.places))).length := by
    simp only [List.length_zip, length_of_parallel h.owners, length_of_parallel h.units,
      length_numbers h.numbers, length_places h.places, Nat.min_self, Nat.le_refl]
  calc
    _ = ((x.keywords.zip (x.owners.zip (x.numbers.zip (x.units.zip x.places)))).map
        Prod.fst).map Text.trimmed := by
      rw [members, List.map_map, List.map_map]
      rfl
    _ = x.keywords.map Text.trimmed := by rw [List.map_fst_zip hrest]

end Stored

/-- What a file is read as is the catalog of what it stores. -/
theorem readBy_eq_ok : readBy calendar file stream separator = .ok c ↔
    ∃ x : Stored, x.In calendar file stream ∧ x.catalog calendar separator = c := by
  constructor
  · intro h
    unfold readBy at h
    obtain ⟨named, hnamed, h⟩ := bind_eq_ok.1 h
    obtain ⟨keywords, hkeywords, h⟩ := bind_eq_ok.1 h
    obtain ⟨owned, howned, h⟩ := bind_eq_ok.1 h
    obtain ⟨owners, howners, h⟩ := bind_eq_ok.1 h
    obtain ⟨measured, hmeasured, h⟩ := bind_eq_ok.1 h
    obtain ⟨units, hunits, h⟩ := bind_eq_ok.1 h
    obtain ⟨numbers, hnumbers, h⟩ := bind_eq_ok.1 h
    obtain ⟨⟨extent, restartStep⟩, hdimensions, h⟩ := bind_eq_ok.1 h
    obtain ⟨start, hstart, h⟩ := bind_eq_ok.1 h
    obtain ⟨restartCase, hrestartCase, h⟩ := bind_eq_ok.1 h
    obtain ⟨places, hplaces, h⟩ := bind_eq_ok.1 h
    cases h
    exact ⟨⟨keywords, owners, units, numbers, extent, restartStep, start, restartCase, places⟩,
      ⟨bind_eq_ok.2 ⟨named, hnamed, hkeywords⟩, bind_eq_ok.2 ⟨owned, howned, howners⟩,
        bind_eq_ok.2 ⟨measured, hmeasured, hunits⟩, hnumbers, hdimensions, hstart, hrestartCase,
        hplaces⟩, rfl⟩
  · rintro ⟨x, h, rfl⟩
    obtain ⟨named, hnamed, hkeywords⟩ := bind_eq_ok.1 h.keywords
    obtain ⟨owned, howned, howners⟩ := bind_eq_ok.1 h.owners
    obtain ⟨measured, hmeasured, hunits⟩ := bind_eq_ok.1 h.units
    exact bind_eq_ok.2 ⟨named, hnamed, bind_eq_ok.2 ⟨x.keywords, hkeywords,
      bind_eq_ok.2 ⟨owned, howned, bind_eq_ok.2 ⟨x.owners, howners,
      bind_eq_ok.2 ⟨measured, hmeasured, bind_eq_ok.2 ⟨x.units, hunits,
      bind_eq_ok.2 ⟨x.numbers, h.numbers, bind_eq_ok.2 ⟨_, h.dimensions,
      bind_eq_ok.2 ⟨x.start, h.start, bind_eq_ok.2 ⟨x.restartCase, h.restartCase,
      bind_eq_ok.2 ⟨x.places, h.places, rfl⟩⟩⟩⟩⟩⟩⟩⟩⟩⟩⟩

theorem keywords_of_readBy (h : readBy calendar file stream separator = .ok c) :
    ∃ keywords, (required file stream "KEYWORDS" >>= Keyword.strings) = .ok keywords ∧
      c.members.map Variable.keyword = keywords.map Text.trimmed := by
  obtain ⟨x, hx, rfl⟩ := readBy_eq_ok.1 h
  exact ⟨x.keywords, hx.keywords, hx.map_keyword⟩

end SummaryCatalog

end Reservoir
