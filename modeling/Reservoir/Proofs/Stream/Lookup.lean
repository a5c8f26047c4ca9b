import Reservoir.Proofs.Stream.Places
import Reservoir.Proofs.Stream.Recognizing

/-!
Files with a table of places. However often a file is scanned again, its table fits its catalog.
Then the table, the numbers of the entries, the searches of views and the walks tell the same order,
and the parts that a name divides the catalog into make up the whole of it.
-/

namespace Reservoir

open Outcome

namespace Walk

def ahead (w : Walk) : List Entry := (w.file.catalog.entries.take w.stop).drop w.place

theorem length_ahead_le (w : Walk) : w.ahead.length ≤ w.left := by
  rw [ahead, List.length_drop, List.length_take, left]
  omega

/-- A step takes the first of certain entries ahead and leaves the others of them. -/
structure Takes (step : Walk → Option Entry × Walk) (rest : Walk → List Entry) : Prop where
  entry (w : Walk) : (step w).1 = (rest w).head?
  rest (w : Walk) : rest (step w).2 = (rest w).tail
  file (w : Walk) : (step w).2.file = w.file

theorem next_takes : Takes next ahead where
  entry w := by
    rw [List.head?_eq_getElem?, ahead, List.getElem?_drop, Nat.add_zero, List.getElem?_take, next]
    split <;> rfl
  rest w := by
    rw [next]
    split
    · rw [ahead, ahead, List.tail_drop]
    · next hend =>
      have hnil : w.ahead = [] := by
        refine List.drop_eq_nil_of_le (Nat.le_trans (List.length_take_le _ _) ?_)
        omega
      rw [hnil, List.tail_nil]
  file w := by
    rw [next]
    split <;> rfl

theorem ahead_of_next_none {w w' : Walk} (h : w.next = (none, w')) :
    w.ahead = [] ∧ w'.ahead = [] ∧ w'.file = w.file := by
  have hentry := next_takes.entry w
  have hrest := next_takes.rest w
  have hfile := next_takes.file w
  rw [h] at hentry hrest hfile
  have hnil := List.head?_eq_none_iff.1 hentry.symm
  exact ⟨hnil, hrest.trans (hnil ▸ List.tail_nil), hfile⟩

theorem ahead_of_next_some {w w' : Walk} {e : Entry} (h : w.next = (some e, w')) :
    w.ahead = e :: w'.ahead ∧ w'.file = w.file := by
  have hentry := next_takes.entry w
  have hrest := next_takes.rest w
  have hfile := next_takes.file w
  rw [h] at hentry hrest hfile
  exact ⟨hrest ▸ (List.cons_head?_tail hentry.symm).symm, hfile⟩

theorem nextNamed_takes (name : String) :
    Takes (nextNamed name) fun w => w.ahead.filter (·.name == name) := by
  -- The recursion passes over other names, so all three facts go through it together.
  suffices h : ∀ w, (nextNamed name w).1 = (w.ahead.filter (·.name == name)).head? ∧
      (nextNamed name w).2.ahead.filter (·.name == name) =
        (w.ahead.filter (·.name == name)).tail ∧ (nextNamed name w).2.file = w.file from
    ⟨fun w => (h w).1, fun w => (h w).2.1, fun w => (h w).2.2⟩
  intro w
  fun_induction nextNamed name w with
  | case1 w w' hnext =>
    obtain ⟨hnil, hnil', hfile⟩ := ahead_of_next_none hnext
    rw [hnil, hnil']
    exact ⟨rfl, rfl, hfile⟩
  | case2 w e w' hnext hname =>
    obtain ⟨hahead, hfile⟩ := ahead_of_next_some hnext
    rw [hahead, List.filter_cons_of_pos (by exact hname)]
    exact ⟨rfl, rfl, hfile⟩
  | case3 w e w' hnext hname ih =>
    obtain ⟨hahead, hfile⟩ := ahead_of_next_some hnext
    rw [hahead, List.filter_cons_of_neg (by exact hname)]
    exact ⟨ih.1, ih.2.1, ih.2.2.trans hfile⟩

namespace Takes

variable {step : Walk → Option Entry × Walk} {rest : Walk → List Entry}

theorem loads_eq (h : Takes step rest) (w : Walk) (streams : List Bytes) :
    w.loads step streams =
      streams.mapIdx fun i stream => (rest w)[i]?.map (w.file.load stream) := by
  induction streams generalizing w with
  | nil => rfl
  | cons stream streams ih =>
    rw [loads, ih, List.mapIdx_cons, h.entry, h.rest, h.file, List.head?_eq_getElem?]
    simp only [List.getElem?_tail]

theorem filterMap_loads (h : Takes step rest) {w : Walk} {n : Nat} (hn : (rest w).length ≤ n)
    (stream : Bytes) : (w.loads step (List.replicate n stream)).filterMap id =
      (rest w).map (w.file.load stream) := by
  induction n generalizing w with
  | zero =>
    rw [List.eq_nil_of_length_eq_zero (Nat.le_zero.1 hn)]
    rfl
  | succ n ih =>
    have hback := ih (w := (step w).2) (by rw [h.rest, List.length_tail]; omega)
    rw [h.rest, h.file] at hback
    rw [List.replicate_succ, loads, List.filterMap_cons, hback, h.entry]
    cases rest w <;> rfl

theorem loadAll_eq (h : Takes step rest) {w : Walk} (hlength : (rest w).length ≤ w.left)
    (stream : Bytes) : w.loadAll step stream = w.file.loadAll stream (rest w) :=
  h.filterMap_loads (Nat.le_succ_of_le hlength) stream

end Takes

end Walk

namespace IndexedFile

variable {f : IndexedFile}

/-- The table is that of the catalog, whose entries are numbered within their names. -/
structure Consistent (f : IndexedFile) : Prop where
  table : f.table = .ofEntries f.entries
  numbered : Catalog.NumberedFrom [] f.entries

theorem consistent_ofStream {path : String} {stream : Bytes} {hints : Encoding.Hints}
    (h : ofStream path stream hints = .ok f) : f.Consistent := by
  obtain ⟨file, hfile, h⟩ := bind_eq_ok.1 h
  cases h
  obtain ⟨encoding, -, hfile⟩ := bind_eq_ok.1 hfile
  obtain ⟨-, -, hfile⟩ := bind_eq_ok.1 hfile
  cases hfile
  exact ⟨rfl, trivial⟩

/-- A scan takes over what the stream holds, catalog and table together, or nothing. -/
theorem scan_cases (f : IndexedFile) (stream : Bytes) :
    (∃ entries, f.file.encoding.scan stream f.file.length = .ok entries ∧
      f.scan stream = (.ok (), ⟨{ f.file with catalog := ⟨entries⟩ }, .ofEntries entries⟩)) ∨
    ∃ fault, f.file.encoding.scan stream f.file.length = .error fault ∧
      f.scan stream = (.error fault, f) := by
  unfold scan KeywordFile.scan
  cases f.file.encoding.scan stream f.file.length with
  | ok entries => exact .inl ⟨entries, rfl, rfl⟩
  | error fault => exact .inr ⟨fault, rfl, rfl⟩

theorem Consistent.scan (h : f.Consistent) (stream : Bytes) : (f.scan stream).2.Consistent := by
  obtain ⟨entries, hscan, heq⟩ | ⟨fault, -, heq⟩ := f.scan_cases stream
  · rw [heq]
    exact ⟨rfl, Catalog.numberedFrom_of_scanFrom hscan⟩
  · rw [heq]
    exact h

def afterScans (f : IndexedFile) (streams : List Bytes) : IndexedFile :=
  streams.foldl (fun f stream => (f.scan stream).2) f

theorem Consistent.afterScans (h : f.Consistent) (streams : List Bytes) :
    (f.afterScans streams).Consistent := by
  induction streams generalizing f with
  | nil => exact h
  | cons stream streams ih => exact ih (h.scan stream)

theorem view_part (f : IndexedFile) : f.view.part = f.file.catalog :=
  congrArg Catalog.mk (List.drop_zero.trans List.take_length)

theorem walk_ahead (f : IndexedFile) : f.walk.ahead = f.entries :=
  congrArg Catalog.entries (view_part f)

theorem named_all_eq (f : IndexedFile) (name : String) (stream : Bytes) :
    f.walk.loadAll (Walk.nextNamed name) stream =
      f.file.loadAll stream (f.entries.filter (·.name == name)) := by
  have hlength := Nat.le_trans (List.length_filter_le (·.name == name) _) f.walk.length_ahead_le
  rw [(Walk.nextNamed_takes name).loadAll_eq hlength, walk_ahead]
  rfl

/-- Whichever way a file is asked about a name, it tells of the same entries. -/
structure Agrees (f : IndexedFile) (name : String) : Prop where
  get? (i : Nat) : f.get? name i = (f.entries.filter (·.name == name))[i]?
  occurrence {i : Nat} {e : Entry} (he : f.get? name i = some e) : e.occurrence = i
  count : f.count name = (f.entries.filter (·.name == name)).length
  has : f.has name ↔ 0 < f.count name
  view_get? (i : Nat) : f.view.get? name i = f.get? name i
  view_count : f.view.count name = f.count name
  view_has : f.view.has name = f.has name
  head : ∀ e ∈ (f.head name).part.entries, e.name ≠ name
  block {i : Nat} (hi : i < f.count name) : ∃ block first rest,
    f.block? name i = some block ∧ block.part.entries = first :: rest ∧
      f.get? name i = some first ∧ ∀ e ∈ rest, e.name ≠ name
  block_none {i : Nat} (hi : f.count name ≤ i) : f.block? name i = none
  whole : (f.head name).part.entries ++
    ((List.range (f.count name)).filterMap (f.block? name)).flatMap (·.part.entries) = f.entries
  named (streams : List Bytes) : f.walk.loads (Walk.nextNamed name) streams =
    streams.mapIdx fun i stream => (f.get? name i).map (f.file.load stream)
  named_all (stream : Bytes) : f.walk.loadAll (Walk.nextNamed name) stream =
    f.file.loadAll stream (f.entries.filter (·.name == name))

namespace Consistent

variable {name : String}

theorem places?_eq (h : f.Consistent) (name : String) :
    f.table.places? name = PlaceTable.row (placesOf name 0 f.entries) := by
  rw [h.table, PlaceTable.places?_ofEntries]

theorem get?_eq (h : f.Consistent) (name : String) (i : Nat) :
    f.get? name i = f.file.catalog.get? name i := by
  have hplace : f.get? name i =
      ((f.table.places? name).bind (·[i]?)).bind (f.entries[·]?) := (Option.bind_assoc ..).symm
  rw [hplace, h.places?_eq, PlaceTable.getElem?_row, getElem?_placesOf]
  rfl

theorem loadNamed_eq (h : f.Consistent) (stream : Bytes) (name : String) (i : Nat) :
    f.loadNamed stream name i = f.file.loadNamed stream name i := by
  rw [loadNamed, h.get?_eq]
  rfl

theorem count_eq (h : f.Consistent) (name : String) : f.count name = f.file.catalog.count name := by
  rw [count, h.places?_eq, PlaceTable.size_row, length_placesOf]
  rfl

theorem has_iff (h : f.Consistent) (name : String) : f.has name ↔ 0 < f.count name := by
  rw [has, count, h.places?_eq, PlaceTable.size_row, PlaceTable.isSome_row]
  cases placesOf name 0 f.entries <;> simp

theorem view_has_eq (h : f.Consistent) (name : String) : f.view.has name = f.has name := by
  have hfirst : f.view.get? name 0 = (f.file.catalog.named name)[0]? := by
    rw [View.get?, view_part]
    rfl
  rw [Bool.eq_iff_iff, h.has_iff, h.count_eq, View.has, hfirst, Option.isSome_iff_ne_none,
    Ne, List.getElem?_eq_none_iff, Nat.not_le]
  rfl

theorem named_eq (h : f.Consistent) (name : String) (streams : List Bytes) :
    f.walk.loads (Walk.nextNamed name) streams =
      streams.mapIdx fun i stream => (f.get? name i).map (f.file.load stream) := by
  rw [(Walk.nextNamed_takes name).loads_eq, walk_ahead]
  simp only [h.get?_eq]
  rfl

theorem names_eq (h : f.Consistent) : f.names = (f.entries.map Entry.name).eraseDups := by
  have hnames := h.numbered.map_filter_first
  simp only [List.not_mem_nil, not_false_eq_true, decide_true, List.filter_true] at hnames
  exact hnames

section sections

variable {front : List Entry} {sections : List (List Entry)} (h : f.Consistent)
  (hd : Divided name front sections f.entries)

include h hd

theorem place_eq (i : Nat) : (f.table.places? name).bind (·[i]?) =
    if i < sections.length then some (front.length + (sections.take i).flatten.length)
    else none := by
  rw [h.places?_eq, PlaceTable.getElem?_row, hd.eq, placesOf_append, placesOf_of_notMem hd.front,
    List.nil_append, Nat.zero_add, getElem?_placesOf_flatten hd.sections]

theorem head_entries : (f.head name).part.entries = front := by
  change (f.entries.take (((f.table.places? name).bind (·[0]?)).getD f.entries.length)).drop 0 = _
  rw [h.place_eq hd, List.drop_zero]
  split
  · rw [Option.getD_some, List.take_zero, List.flatten_nil, List.length_nil, Nat.add_zero, hd.eq,
      List.take_left]
  · next hnone =>
    have hnil : sections = [] := List.eq_nil_of_length_eq_zero (Nat.eq_zero_of_not_pos hnone)
    rw [Option.getD_none, List.take_length, hd.eq, hnil, List.flatten_nil, List.append_nil]

theorem block?_entries (i : Nat) :
    (f.block? name i).map (·.part.entries) = sections[i]? := by
  have hplace := h.place_eq hd
  unfold block?
  cases hplaces : f.table.places? name with
  | none =>
    have hi := hplace i
    rw [hplaces, Option.bind_none] at hi
    split at hi
    · cases hi
    · next hnone => exact (List.getElem?_eq_none (Nat.le_of_not_lt hnone)).symm
  | some places =>
    simp only [hplaces, Option.bind_some] at hplace
    simp only [Option.bind_eq_bind, Option.bind_some, hplace i]
    split
    · next hi =>
      -- The last section has no next place and goes on to the end of the file.
      have hstop : places[i + 1]?.getD f.entries.length =
          front.length + (sections.take (i + 1)).flatten.length := by
        rw [hplace (i + 1)]
        split
        · rfl
        · next hend =>
          rw [Option.getD_none, hd.eq, List.length_append, List.take_of_length_le (by omega)]
      rw [hstop, List.getElem?_eq_getElem hi]
      refine congrArg some ?_
      change (f.entries.take _).drop _ = _
      rw [hd.eq, drop_take_flatten front hi]
    · next hnone => exact (List.getElem?_eq_none (Nat.le_of_not_lt hnone)).symm

theorem count_sections : f.count name = sections.length := by
  have hcatalog : f.file.catalog = ⟨front ++ sections.flatten⟩ := congrArg Catalog.mk hd.eq
  rw [h.count_eq, hcatalog, Catalog.count_append_flatten hd.front hd.sections]

theorem get?_sections (i : Nat) :
    f.get? name i = sections[i]?.bind List.head? := by
  have hfilter : f.get? name i = (f.entries.filter (·.name == name))[i]? := h.get?_eq name i
  rw [hfilter, hd.eq, List.filter_append, filter_of_notMem hd.front, List.nil_append,
    getElem?_filter_flatten hd.sections]

theorem block_sections {i : Nat} (hi : i < sections.length) :
    ∃ block first rest, f.block? name i = some block ∧ block.part.entries = first :: rest ∧
      f.get? name i = some first ∧ ∀ e ∈ rest, e.name ≠ name := by
  have hblock := h.block?_entries hd i
  obtain ⟨first, rest, hsection, -, hrest⟩ :=
    (hd.sections sections[i] (List.getElem_mem hi)).exists_cons
  rw [List.getElem?_eq_getElem hi, hsection, Option.map_eq_some_iff] at hblock
  obtain ⟨block, hblock, hentries⟩ := hblock
  refine ⟨block, first, rest, hblock, hentries, ?_, fun e he heq => hrest ?_⟩
  · rw [h.get?_sections hd, List.getElem?_eq_getElem hi, hsection]
    rfl
  · exact heq ▸ List.mem_map_of_mem he

theorem whole_sections : (f.head name).part.entries ++
    ((List.range sections.length).filterMap (f.block? name)).flatMap (·.part.entries) =
      f.entries := by
  have hblocks : ((List.range sections.length).filterMap (f.block? name)).map (·.part.entries) =
      sections := by
    simp only [List.map_filterMap, h.block?_entries hd, filterMap_getElem?_range]
  rw [h.head_entries hd, List.flatMap_def, hblocks, hd.eq]

end sections

theorem parts_eq (h : f.Consistent) (name : String) :
    (f.head name).part = f.file.catalog.head name ∧
      ∀ i, (f.block? name i).map View.part = f.file.catalog.block? name i := by
  obtain ⟨front, sections, hd⟩ := exists_divided name f.entries
  have hcatalog : f.file.catalog = ⟨front ++ sections.flatten⟩ := congrArg Catalog.mk hd.eq
  refine ⟨?_, fun i => ?_⟩
  · rw [hcatalog, Catalog.head_append_flatten hd.front hd.sections]
    exact congrArg Catalog.mk (h.head_entries hd)
  · have hblock := h.block?_entries hd i
    rw [← Catalog.map_entries_block? hd.front hd.sections i, ← hcatalog] at hblock
    have hinjective : Function.Injective Catalog.entries := fun a b heq => congrArg Catalog.mk heq
    refine Option.map_injective hinjective ?_
    rw [Option.map_map]
    exact hblock

theorem agrees (h : f.Consistent) (name : String) : f.Agrees name := by
  obtain ⟨front, sections, hd⟩ := exists_divided name f.entries
  have hcount := h.count_sections hd
  exact {
    get? := h.get?_eq name
    occurrence := fun {i e} he => by
      rw [h.get?_eq] at he
      have hnumber := h.numbered.occurrence_eq he
      rwa [List.count_nil, Nat.zero_add] at hnumber
    count := h.count_eq name
    has := h.has_iff name
    view_get? := fun i => by rw [View.get?, view_part, h.get?_eq]
    view_count := by rw [View.count, view_part, h.count_eq]
    view_has := h.view_has_eq name
    head := fun e he heq => by
      rw [h.head_entries hd] at he
      exact hd.front (heq ▸ List.mem_map_of_mem he)
    block := fun hi => h.block_sections hd (hcount ▸ hi)
    block_none := fun {i} hi => by
      have hblock := h.block?_entries hd i
      rw [List.getElem?_eq_none (hcount ▸ hi)] at hblock
      exact Option.map_eq_none_iff.1 hblock
    whole := hcount ▸ h.whole_sections hd
    named := h.named_eq name
    named_all := named_all_eq f name }

end Consistent

/-- However a file is opened and scanned, with whatever its stream holds each time, its answers
agree for every name. A further scan takes over all that it finds, or it fails and leaves the file
as it is. -/
theorem agrees_afterScans {path : String} {stream : Bytes} {hints : Encoding.Hints}
    (h : ofStream path stream hints = .ok f) (streams : List Bytes) :
    let g := f.afterScans streams
    (∀ name, g.Agrees name) ∧ g.names = (g.entries.map Entry.name).eraseDups ∧
      ∀ now : Bytes,
        (∃ entries, g.file.encoding.scan now g.file.length = .ok entries ∧
          (g.scan now).1 = .ok () ∧ (g.scan now).2.entries = entries) ∨
        ∃ fault, g.file.encoding.scan now g.file.length = .error fault ∧
          g.scan now = (.error fault, g) := by
  intro g
  have hg : g.Consistent := (consistent_ofStream h).afterScans streams
  refine ⟨hg.agrees, hg.names_eq, fun now => (g.scan_cases now).imp_left ?_⟩
  rintro ⟨entries, hscan, heq⟩
  rw [heq]
  exact ⟨entries, hscan, rfl, rfl⟩

/-- A file with two keywords of one name, which is cut off later and scanned again. -/
theorem agrees_afterScans_cut :
    let header : Keyword := ⟨⟨"SEQHDR", by decide⟩, .int, 1, [0, 0, 0, 0], .inl rfl⟩
    let note : Keyword := ⟨⟨"NOTE", by decide⟩, .message, 0, [], .inl rfl⟩
    let stream := Writer.streamOf .big [header, note, header]
    let f : IndexedFile := ⟨⟨"CASE", .binary .big, stream.length, .empty⟩, .empty⟩
    let g := f.afterScans [stream, stream.take 30]
    ofStream "CASE" stream .none = .ok f ∧ (∀ name, g.Agrees name) ∧
      (f.afterScans [stream]).scan (stream.take 30) = (.error (.truncated 4 0), g) ∧
      g.names = ["SEQHDR", "NOTE"] ∧ g.count "SEQHDR" = 2 ∧ g.count "PARAMS" = 0 := by
  intro header note stream f g
  have hopen : ofStream "CASE" stream .none = .ok f := by decide +kernel
  obtain ⟨hagrees, -, -⟩ := agrees_afterScans hopen [stream, stream.take 30]
  exact ⟨hopen, hagrees, by decide +kernel, by decide +kernel, by decide +kernel,
    by decide +kernel⟩

end IndexedFile

end Reservoir
