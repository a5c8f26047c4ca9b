import Reservoir.IndexedFile
import Reservoir.Proofs.Stream.Holding

/-!
The places of names in a catalog. A table that is filled entry by entry holds for each name the
places of its entries in order, and the numbers of the entries count them. A catalog consists of
the entries before the first one of a name and of one section for each entry of that name, and the
places are where the sections start.
-/

namespace Reservoir

def placesOf (name : String) (place : Nat) : List Entry → List Nat
  | [] => []
  | e :: es =>
    if e.name = name then place :: placesOf name (place + 1) es else placesOf name (place + 1) es

section placesOf

variable {name : String}

theorem placesOf_append (place : Nat) (front back : List Entry) :
    placesOf name place (front ++ back) =
      placesOf name place front ++ placesOf name (place + front.length) back := by
  induction front generalizing place with
  | nil => rfl
  | cons e front ih =>
    have hplace : place + 1 + front.length = place + (front.length + 1) := by omega
    rw [List.cons_append, placesOf, placesOf, ih, List.length_cons, hplace]
    split <;> rfl

theorem placesOf_of_notMem {es : List Entry} (h : name ∉ es.map Entry.name) (place : Nat) :
    placesOf name place es = [] := by
  induction es generalizing place with
  | nil => rfl
  | cons e es ih =>
    rw [List.map_cons, List.mem_cons, not_or] at h
    rw [placesOf, if_neg (Ne.symm h.1), ih h.2]

theorem map_placesOf (name : String) (front es : List Entry) :
    (placesOf name front.length es).map ((front ++ es)[·]?) =
      (es.filter (·.name == name)).map some := by
  induction es generalizing front with
  | nil => rfl
  | cons e es ih =>
    -- The entry moves to the front, so that the places stay those in the whole list.
    have hback := ih (front ++ [e])
    rw [List.length_append, List.length_singleton, List.append_assoc,
      List.singleton_append] at hback
    rw [placesOf]
    by_cases hname : e.name = name
    · rw [if_pos hname, List.map_cons, hback, List.filter_cons_of_pos (by simpa using hname),
        List.map_cons, List.getElem?_append_right (Nat.le_refl _), Nat.sub_self,
        List.getElem?_cons_zero]
    · rw [if_neg hname, hback, List.filter_cons_of_neg (by simpa using hname)]

theorem length_placesOf (name : String) (es : List Entry) :
    (placesOf name 0 es).length = (es.filter (·.name == name)).length := by
  have h := congrArg List.length (map_placesOf name [] es)
  rwa [List.length_map, List.length_map] at h

theorem getElem?_placesOf (name : String) (es : List Entry) (i : Nat) :
    (placesOf name 0 es)[i]?.bind (es[·]?) = (es.filter (·.name == name))[i]? := by
  have h := congrArg (·[i]?) (map_placesOf name [] es)
  simp only [List.length_nil, List.nil_append, List.getElem?_map] at h
  cases hplace : (placesOf name 0 es)[i]? with
  | none =>
    rw [hplace, Option.map_none] at h
    rw [Option.bind_none, eq_comm, ← Option.map_eq_none_iff]
    exact h.symm
  | some place =>
    rw [hplace, Option.map_some] at h
    rw [Option.bind_some]
    cases hentry : (es.filter (·.name == name))[i]? with
    | none =>
      rw [hentry] at h
      cases h
    | some e =>
      rw [hentry] at h
      exact Option.some.inj h

end placesOf

namespace PlaceTable

def row : List Nat → Option (Array Nat)
  | [] => none
  | place :: places => some (place :: places).toArray

theorem push_row (places : List Nat) (place : Nat) :
    some (((row places).getD #[]).push place) = row (places ++ [place]) := by
  cases places with
  | nil => rfl
  | cons first places => simp [row]

theorem getElem?_row (places : List Nat) (i : Nat) : (row places).bind (·[i]?) = places[i]? := by
  cases places <;> simp [row]

theorem size_row (places : List Nat) : ((row places).map Array.size).getD 0 = places.length := by
  cases places <;> simp [row]

theorem isSome_row (places : List Nat) : (row places).isSome = !places.isEmpty := by
  cases places <;> rfl

theorem lookup_cons_ite {α : Type} (name other : String) (x : α) (rows : List (String × α)) :
    ((other, x) :: rows).lookup name = if other = name then some x else rows.lookup name := by
  by_cases h : other = name
  · rw [h, if_pos rfl, List.lookup_cons_self]
  · rw [if_neg h, List.lookup_cons, beq_false_of_ne (Ne.symm h)]

theorem lookup_pushRow (name other : String) (place : Nat) (rows : List (String × Array Nat)) :
    (pushRow name place rows).lookup other =
      if name = other then some (((rows.lookup other).getD #[]).push place)
      else rows.lookup other := by
  induction rows with
  | nil =>
    rw [pushRow, lookup_cons_ite, List.lookup_nil, Option.getD_none, List.push_toArray,
      List.nil_append]
  | cons first rows ih =>
    obtain ⟨key, places⟩ := first
    rw [pushRow]
    split
    · next hkey =>
      rw [lookup_cons_ite, lookup_cons_ite, hkey]
      split <;> rfl
    · next hkey =>
      rw [lookup_cons_ite, lookup_cons_ite, ih]
      by_cases h : key = other
      · rw [if_pos h, if_pos h, if_neg fun hname => hkey (h.trans hname.symm)]
      · rw [if_neg h, if_neg h]

theorem places?_push {t : PlaceTable} {name : String} {places : List Nat}
    (h : t.places? name = row places) (other : String) (place : Nat) :
    (t.push other place).places? name =
      row (if other = name then places ++ [place] else places) := by
  rw [push, places?, lookup_pushRow]
  split
  · rw [← push_row, ← h, places?]
  · exact h

theorem places?_pushAll {t : PlaceTable} {name : String} {places : List Nat}
    (h : t.places? name = row places) (place : Nat) (es : List Entry) :
    (t.pushAll place es).places? name = row (places ++ placesOf name place es) := by
  induction es generalizing t places place with
  | nil =>
    rw [placesOf, List.append_nil]
    exact h
  | cons e es ih =>
    rw [pushAll, ih (places?_push h e.name place), placesOf]
    split
    · rw [List.append_assoc, List.singleton_append]
    · rfl

theorem places?_ofEntries (es : List Entry) (name : String) :
    (ofEntries es).places? name = row (placesOf name 0 es) :=
  @places?_pushAll empty name [] rfl 0 es

end PlaceTable

theorem filter_of_notMem {name : String} {es : List Entry} (h : name ∉ es.map Entry.name) :
    es.filter (·.name == name) = [] := by
  refine List.filter_eq_nil_iff.2 fun e he heq => h ?_
  exact beq_iff_eq.1 heq ▸ List.mem_map_of_mem he

/-- Entries divided by those of a name: the ones before the first, and a section from each on. -/
structure Divided (name : String) (front : List Entry) (sections : List (List Entry))
    (es : List Entry) : Prop where
  eq : es = front ++ sections.flatten
  front : name ∉ front.map Entry.name
  sections : ∀ s ∈ sections, IsSection name (s.map Entry.name)

theorem exists_divided (name : String) (es : List Entry) :
    ∃ front sections, Divided name front sections es := by
  induction es with
  | nil => exact ⟨[], [], rfl, List.not_mem_nil, List.forall_mem_nil _⟩
  | cons e es ih =>
    obtain ⟨front, sections, rfl, hfront, hsections⟩ := ih
    by_cases hname : e.name = name
    · refine ⟨[], (e :: front) :: sections, rfl, List.not_mem_nil, ?_⟩
      exact List.forall_mem_cons.2 ⟨⟨_, by rw [List.map_cons, hname], hfront⟩, hsections⟩
    · refine ⟨e :: front, sections, rfl, ?_, hsections⟩
      rw [List.map_cons, List.mem_cons, not_or]
      exact ⟨Ne.symm hname, hfront⟩

section sections

variable {name : String} {sections : List (List Entry)}

theorem placesOf_cons_section {s : List Entry} (h : IsSection name (s.map Entry.name))
    (place : Nat) (back : List Entry) :
    placesOf name place (s ++ back) = place :: placesOf name (place + s.length) back := by
  obtain ⟨e, rest, rfl, hname, hrest⟩ := h.exists_cons
  rw [placesOf_append, placesOf, if_pos hname, placesOf_of_notMem hrest]
  rfl

theorem getElem?_placesOf_flatten (h : ∀ s ∈ sections, IsSection name (s.map Entry.name))
    (place i : Nat) : (placesOf name place sections.flatten)[i]? =
      if i < sections.length then some (place + (sections.take i).flatten.length) else none := by
  induction sections generalizing place i with
  | nil => rfl
  | cons s sections ih =>
    obtain ⟨hs, hsections⟩ := List.forall_mem_cons.1 h
    rw [List.flatten_cons, placesOf_cons_section hs]
    cases i with
    | zero => simp
    | succ i =>
      rw [List.getElem?_cons_succ, ih hsections, List.take_succ_cons, List.flatten_cons,
        List.length_append, List.length_cons, Nat.add_assoc]
      simp only [Nat.add_lt_add_iff_right]

theorem drop_take_flatten {α : Type} (front : List α) {sections : List (List α)} {i : Nat}
    (hi : i < sections.length) : ((front ++ sections.flatten).take
      (front.length + (sections.take (i + 1)).flatten.length)).drop
      (front.length + (sections.take i).flatten.length) = sections[i] := by
  have hwhole : front ++ sections.flatten =
      (front ++ (sections.take (i + 1)).flatten) ++ (sections.drop (i + 1)).flatten := by
    rw [List.append_assoc, ← List.flatten_append, List.take_append_drop]
  rw [hwhole, List.take_left' List.length_append, List.take_succ_eq_append_getElem hi,
    List.flatten_append, List.flatten_singleton, ← List.append_assoc,
    List.drop_left' List.length_append]

theorem getElem?_filter_flatten (h : ∀ s ∈ sections, IsSection name (s.map Entry.name)) (i : Nat) :
    (sections.flatten.filter (·.name == name))[i]? = sections[i]?.bind List.head? := by
  induction sections generalizing i with
  | nil => rfl
  | cons s sections ih =>
    obtain ⟨hs, hsections⟩ := List.forall_mem_cons.1 h
    obtain ⟨e, rest, rfl, hname, hrest⟩ := hs.exists_cons
    rw [List.flatten_cons, List.cons_append, List.filter_cons_of_pos (by simpa using hname),
      List.filter_append, filter_of_notMem hrest, List.nil_append]
    cases i with
    | zero => rfl
    | succ i => exact ih hsections i

end sections

namespace Catalog

theorem suffix?_flatten_eq_none {name : String} {sections : List (List Entry)}
    (h : ∀ s ∈ sections, IsSection name (s.map Entry.name)) {i : Nat}
    (hi : sections.length ≤ i) : suffix? name i sections.flatten = none := by
  induction sections generalizing i with
  | nil => cases i <;> rfl
  | cons s sections ih =>
    obtain ⟨hs, hsections⟩ := List.forall_mem_cons.1 h
    obtain ⟨e, rest, rfl, hname, hrest⟩ := hs.exists_cons
    cases i with
    | zero => cases hi
    | succ i =>
      rw [List.flatten_cons, List.cons_append, suffix?_cons_succ hname, suffix?_append hrest,
        ih hsections (Nat.le_of_succ_le_succ hi)]

theorem map_entries_block? {name : String} {front : List Entry} {sections : List (List Entry)}
    (hfront : name ∉ front.map Entry.name)
    (h : ∀ s ∈ sections, IsSection name (s.map Entry.name)) (i : Nat) :
    (block? ⟨front ++ sections.flatten⟩ name i).map Catalog.entries = sections[i]? := by
  by_cases hi : i < sections.length
  · rw [block?_append_flatten hfront h hi, Option.map_some, List.getElem?_eq_getElem hi]
  · have hle := Nat.le_of_not_lt hi
    rw [block?, suffix?_append hfront, suffix?_flatten_eq_none h hle, List.getElem?_eq_none hle]
    rfl

theorem get?_block {c part : Catalog} {name : String} {i : Nat}
    (h : (c.blocks name)[i]? = some part) : part.get? name 0 = c.get? name i := by
  obtain ⟨front, sections, hdivided⟩ := exists_divided name c.entries
  have hc : c = ⟨front ++ sections.flatten⟩ := congrArg Catalog.mk hdivided.eq
  rw [hc, blocks_append_flatten hdivided.front hdivided.sections, List.getElem?_map] at h
  obtain ⟨s, hs, rfl⟩ := Option.map_eq_some_iff.1 h
  obtain ⟨e, rest, rfl, hname, -⟩ :=
    (hdivided.sections s (List.mem_of_getElem? hs)).exists_cons
  rw [hc, get?, get?, named, named, List.filter_append, filter_of_notMem hdivided.front,
    List.nil_append, getElem?_filter_flatten hdivided.sections, hs, Option.bind_some,
    List.filter_cons_of_pos (by simpa using hname)]
  rfl

def NumberedFrom (seen : List String) : List Entry → Prop
  | [] => True
  | e :: es => e.occurrence = seen.count e.name ∧ NumberedFrom (e.name :: seen) es

theorem numberedFrom_of_scanFrom {encoding : Encoding} {streamLength : Nat} {seen : List String}
    {c : Cursor} {es : List Entry} (h : encoding.scanFrom streamLength seen c = .ok es) :
    NumberedFrom seen es := by
  induction es generalizing seen c with
  | nil => trivial
  | cons e es ih =>
    obtain ⟨hnil, -⟩ | ⟨header, data, next, back, -, -, hback, hes⟩ := Encoding.scanFrom_eq_ok h
    · cases hnil
    · cases hes
      exact ⟨rfl, ih hback⟩

theorem NumberedFrom.occurrence_eq {seen : List String} {es : List Entry} {name : String}
    (h : NumberedFrom seen es) {i : Nat} {e : Entry}
    (he : (es.filter (·.name == name))[i]? = some e) : e.occurrence = seen.count name + i := by
  induction es generalizing seen i with
  | nil => cases he
  | cons first es ih =>
    obtain ⟨hfirst, hback⟩ := h
    by_cases hname : first.name = name
    · rw [List.filter_cons_of_pos (by simpa using hname)] at he
      cases i with
      | zero =>
        cases he
        rw [hfirst, hname, Nat.add_zero]
      | succ i =>
        rw [ih hback he, hname, List.count_cons_self]
        omega
    · rw [List.filter_cons_of_neg (by simpa using hname)] at he
      rw [ih hback he, List.count_cons_of_ne hname]

theorem NumberedFrom.map_filter_first {seen : List String} {es : List Entry}
    (h : NumberedFrom seen es) : (es.filter (·.occurrence == 0)).map (·.name) =
      ((es.map (·.name)).filter (· ∉ seen)).eraseDups := by
  induction es generalizing seen with
  | nil => rfl
  | cons e es ih =>
    obtain ⟨hfirst, hback⟩ := h
    have hrest := ih hback
    by_cases hseen : e.name ∈ seen
    · have hpos : e.occurrence ≠ 0 := by
        rw [hfirst]
        exact Nat.ne_of_gt (List.count_pos_iff.2 hseen)
      have hsame : ∀ name ∈ es.map (·.name),
          decide (name ∉ e.name :: seen) = decide (name ∉ seen) := by
        intro name _
        by_cases heq : name = e.name
        · simp [heq, hseen]
        · simp [heq]
      rw [List.filter_cons_of_neg (by simpa using hpos), hrest, List.map_cons,
        List.filter_cons_of_neg (by simpa using hseen), List.filter_congr hsame]
    · have hzero : e.occurrence = 0 := by
        rw [hfirst]
        exact List.count_eq_zero.2 hseen
      rw [List.filter_cons_of_pos (by simpa using hzero), List.map_cons, hrest, List.map_cons,
        List.filter_cons_of_pos (by simpa using hseen), List.eraseDups_cons, List.filter_filter]
      refine congrArg (fun names => e.name :: names.eraseDups) (List.filter_congr ?_)
      intro name _
      by_cases heq : name = e.name
      · simp [heq]
      · simp [heq]

end Catalog

end Reservoir
