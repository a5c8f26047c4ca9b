import Mathlib.Data.List.Forall2
import Reservoir.Proofs.Stream.PartialReads

/-!
Scanned files as lists of keywords. The entries of the catalog of such a file load its keywords
one by one, so what is looked up in the catalog, or in the parts that the keywords of some name
divide it into, is found among the keywords.
-/

namespace Reservoir

open Cursor Outcome

/-- A name and other names up to where it comes again. -/
def IsSection (name : String) (names : List String) : Prop :=
  ∃ rest, names = name :: rest ∧ name ∉ rest

theorem IsSection.exists_cons {name : String} {es : List Entry}
    (h : IsSection name (es.map Entry.name)) :
    ∃ e rest, es = e :: rest ∧ e.name = name ∧ name ∉ rest.map Entry.name := by
  obtain ⟨names, hes, hrest⟩ := h
  obtain ⟨e, rest, rfl, hname, rfl⟩ := List.map_eq_cons_iff.1 hes
  exact ⟨e, rest, rfl, hname, hrest⟩

theorem filterMap_getElem?_range {α : Type} (xs : List α) :
    (List.range xs.length).filterMap (xs[·]?) = xs := by
  induction xs with
  | nil => rfl
  | cons x xs ih =>
    rw [List.length_cons, List.range_succ_eq_map, List.filterMap_cons_some List.getElem?_cons_zero,
      List.filterMap_map]
    exact congrArg (x :: ·) ih

theorem rel_getElem? {α β : Type} {R : α → β → Prop} {xs : List α} {ys : List β}
    (h : List.Forall₂ R xs ys) (i : Nat) : Option.Rel R xs[i]? ys[i]? := by
  induction h generalizing i with
  | nil => exact .none
  | cons head tail ih =>
    cases i with
    | zero => exact .some head
    | succ i => exact ih i

theorem exists_of_getElem? {α β : Type} {R : α → β → Prop} {xs : List α} {ys : List β}
    (h : List.Forall₂ R xs ys) {i : Nat} {y : β} (hy : ys[i]? = some y) :
    ∃ x, xs[i]? = some x ∧ R x y := by
  have hpair := rel_getElem? h i
  rw [hy] at hpair
  generalize xs[i]? = found at hpair
  cases hpair with
  | some hR => exact ⟨_, rfl, hR⟩

theorem exists_of_mem {α β : Type} {R : α → β → Prop} {xs : List α} {ys : List β}
    (h : List.Forall₂ R xs ys) {x : α} (hx : x ∈ xs) : ∃ y ∈ ys, R x y := by
  induction h with
  | nil => cases hx
  | cons head tail ih =>
    rcases List.mem_cons.1 hx with rfl | hx
    · exact ⟨_, List.mem_cons_self, head⟩
    · obtain ⟨y, hy, hR⟩ := ih hx
      exact ⟨y, List.mem_cons_of_mem _ hy, hR⟩

theorem exists_flatten {α β : Type} {R : α → β → Prop} {xs : List α} {parts : List (List β)}
    (h : List.Forall₂ R xs parts.flatten) :
    ∃ pieces, xs = pieces.flatten ∧ List.Forall₂ (List.Forall₂ R) pieces parts := by
  induction parts generalizing xs with
  | nil =>
    cases h
    exact ⟨[], rfl, .nil⟩
  | cons part parts ih =>
    rw [List.flatten_cons] at h
    obtain ⟨pieces, hback, hpieces⟩ := ih (List.forall₂_drop_append _ _ _ h)
    refine ⟨xs.take part.length :: pieces, ?_, .cons (List.forall₂_take_append _ _ _ h) hpieces⟩
    rw [List.flatten_cons, ← hback, List.take_append_drop]

namespace Catalog

variable {name : String}

theorem suffix?_cons_of_ne {e : Entry} (h : e.name ≠ name) (i : Nat) (es : List Entry) :
    suffix? name i (e :: es) = suffix? name i es := by
  cases i <;> simp [suffix?, h]

theorem suffix?_cons_zero {e : Entry} (h : e.name = name) (es : List Entry) :
    suffix? name 0 (e :: es) = some (e :: es) := by
  simp [suffix?, h]

theorem suffix?_cons_succ {e : Entry} (h : e.name = name) (i : Nat) (es : List Entry) :
    suffix? name (i + 1) (e :: es) = suffix? name i es := by
  simp [suffix?, h]

theorem suffix?_append {front : List Entry} (h : name ∉ front.map Entry.name) (i : Nat)
    (es : List Entry) : suffix? name i (front ++ es) = suffix? name i es := by
  induction front with
  | nil => rfl
  | cons e front ih =>
    rw [List.map_cons, List.mem_cons, not_or] at h
    rw [List.cons_append, suffix?_cons_of_ne (Ne.symm h.1), ih h.2]

variable {front : List Entry} {sections : List (List Entry)}

theorem suffix?_flatten (h : ∀ s ∈ sections, IsSection name (s.map Entry.name)) {i : Nat}
    (hi : i < sections.length) :
    suffix? name i sections.flatten = some (sections.drop i).flatten := by
  induction sections generalizing i with
  | nil => exact absurd hi (Nat.not_lt_zero i)
  | cons s sections ih =>
    obtain ⟨hs, htail⟩ := List.forall_mem_cons.1 h
    obtain ⟨e, rest, rfl, hname, hrest⟩ := hs.exists_cons
    rw [List.flatten_cons, List.cons_append]
    cases i with
    | zero =>
      rw [suffix?_cons_zero hname]
      rfl
    | succ i =>
      rw [suffix?_cons_succ hname, suffix?_append hrest, ih htail (Nat.lt_of_succ_lt_succ hi),
        List.drop_succ_cons]

theorem takeWhile_append_flatten (hfront : name ∉ front.map Entry.name)
    (h : ∀ s ∈ sections, IsSection name (s.map Entry.name)) :
    (front ++ sections.flatten).takeWhile (·.name != name) = front := by
  have hpass : ∀ e ∈ front, (e.name != name) = true := by
    intro e he
    refine bne_iff_ne.2 fun heq => hfront ?_
    exact heq ▸ List.mem_map_of_mem he
  rw [List.takeWhile_append_of_pos hpass]
  cases sections with
  | nil => exact List.append_nil front
  | cons s sections =>
    obtain ⟨e, rest, rfl, hname, -⟩ := (h s List.mem_cons_self).exists_cons
    rw [List.flatten_cons, List.cons_append, List.takeWhile_cons_of_neg (by simp [hname]),
      List.append_nil]

theorem head_append_flatten (hfront : name ∉ front.map Entry.name)
    (h : ∀ s ∈ sections, IsSection name (s.map Entry.name)) :
    head ⟨front ++ sections.flatten⟩ name = ⟨front⟩ :=
  congrArg Catalog.mk (takeWhile_append_flatten hfront h)

theorem count_eq (c : Catalog) (name : String) :
    c.count name = (c.entries.map Entry.name).count name := by
  rw [count, named, List.count_eq_countP, List.countP_map, List.countP_eq_length_filter]
  rfl

theorem count_append_flatten (hfront : name ∉ front.map Entry.name)
    (h : ∀ s ∈ sections, IsSection name (s.map Entry.name)) :
    count ⟨front ++ sections.flatten⟩ name = sections.length := by
  rw [count_eq, List.map_append, List.count_append, List.count_eq_zero.2 hfront, Nat.zero_add]
  clear hfront
  induction sections with
  | nil => rfl
  | cons s sections ih =>
    simp only [List.mem_cons, forall_eq_or_imp] at h
    obtain ⟨⟨names, hs, hrest⟩, htail⟩ := h
    rw [List.flatten_cons, List.map_append, List.count_append, ih htail, hs, List.count_cons_self,
      List.count_eq_zero.2 hrest, List.length_cons, Nat.add_comm]

theorem block?_append_flatten (hfront : name ∉ front.map Entry.name)
    (h : ∀ s ∈ sections, IsSection name (s.map Entry.name)) {i : Nat} (hi : i < sections.length) :
    block? ⟨front ++ sections.flatten⟩ name i = some ⟨sections[i]⟩ := by
  obtain ⟨e, rest, hs, -, hrest⟩ := (h sections[i] (List.getElem_mem hi)).exists_cons
  have hback : ∀ s ∈ sections.drop (i + 1), IsSection name (s.map Entry.name) :=
    fun s hmem => h s (List.mem_of_mem_drop hmem)
  rw [block?, suffix?_append hfront, suffix?_flatten h hi, List.drop_eq_getElem_cons hi,
    List.flatten_cons, hs]
  exact congrArg (fun es => some (Catalog.mk (e :: es))) (takeWhile_append_flatten hrest hback)

theorem blocks_append_flatten (hfront : name ∉ front.map Entry.name)
    (h : ∀ s ∈ sections, IsSection name (s.map Entry.name)) :
    blocks ⟨front ++ sections.flatten⟩ name = sections.map Catalog.mk := by
  have hblock : ∀ i ∈ List.range sections.length,
      block? ⟨front ++ sections.flatten⟩ name i = (sections.map Catalog.mk)[i]? := by
    intro i hi
    have hi := List.mem_range.1 hi
    rw [block?_append_flatten hfront h hi, List.getElem?_map, List.getElem?_eq_getElem hi]
    rfl
  rw [blocks, count_append_flatten hfront h, List.filterMap_congr hblock, ← List.length_map,
    filterMap_getElem?_range]

end Catalog

namespace Keyword

def called (name : String) (ks : List Keyword) : List Keyword := ks.filter (·.name.val == name)

def first? (name : String) (ks : List Keyword) : Option Keyword := ks.find? (·.name.val == name)

def names (ks : List Keyword) : List String := ks.map (·.name.val)

theorem called_append (name : String) (front back : List Keyword) :
    called name (front ++ back) = called name front ++ called name back :=
  List.filter_append ..

theorem called_cons (name : String) (k : Keyword) (ks : List Keyword) :
    called name (k :: ks) = if k.name.val = name then k :: called name ks else called name ks := by
  simp [called, List.filter_cons]

theorem called_flatMap {α : Type} (name : String) (xs : List α) (f : α → List Keyword) :
    called name (xs.flatMap f) = xs.flatMap fun x => called name (f x) :=
  List.filter_flatMap ..

theorem head?_called (name : String) (ks : List Keyword) :
    (called name ks).head? = first? name ks :=
  List.head?_filter ..

theorem mem_names_of_first? {name : String} {ks : List Keyword} {k : Keyword}
    (h : first? name ks = some k) : name ∈ names ks :=
  List.mem_map.2 ⟨k, List.mem_of_find?_eq_some h, by simpa using List.find?_some h⟩

theorem getElem?_slots {k : Keyword} (hk : k.Whole) (hsize : k.type.size ≠ 0) {i : Nat}
    (hi : i < k.count) : k.slots[i]? = some (k.slot i) := by
  rw [slots_eq hk hsize]
  exact Bytes.getElem?_slots hi k.payload

end Keyword

namespace KeywordFile

/-- The file was opened and scanned, and its stream is these keywords. -/
structure Holds (file : KeywordFile) (stream : Bytes) (ks : List Keyword) : Prop where
  decodes : file.encoding.decodeAll (.start stream) = (ks, .endOfStream)
  scanned : file.encoding.scan stream stream.length = .ok file.catalog.entries

def Loads (file : KeywordFile) (stream : Bytes) (e : Entry) (k : Keyword) : Prop :=
  e.header = k.header ∧ file.load stream e = .ok k

/-- An entry tells of a keyword and loads it, and its elements can be read one by one. -/
structure Shows (file : KeywordFile) (stream : Bytes) (e : Entry) (k : Keyword) : Prop where
  header : e.header = k.header
  whole : k.Whole
  element {α : Type} [Element α] (htype : Element.type α = k.type) (hnumeric : k.type.isNumeric)
    {i : Nat} (hi : i < k.count) :
    file.readElement stream e i = .ok (Element.decode (k.slot i) : α)

def Lists (file : KeywordFile) (stream : Bytes) (part : Catalog) (ks : List Keyword) : Prop :=
  List.Forall₂ (file.Loads stream) part.entries ks

variable {file : KeywordFile} {stream : Bytes} {part : Catalog} {ks : List Keyword}

theorem loadFrom_eq_ok_iff {name : String} {occurrence : Nat} {k : Keyword} :
    file.loadFrom stream part name occurrence = .ok k ↔
      ∃ e, part.get? name occurrence = some e ∧ file.load stream e = .ok k := by
  unfold loadFrom
  cases part.get? name occurrence with
  | none => simp [reject]
  | some e => simp

theorem lists_of_catalogues {encoding : Encoding} {seen : List String} {es : List Entry}
    (hfile : file.encoding = encoding) (h : encoding.Catalogues stream seen ks es) :
    file.Lists stream ⟨es⟩ ks := by
  induction h with
  | nil => exact .nil
  | cons header occurrence decodes tail ih =>
    exact .cons ⟨header, load_of_decodeNext header (hfile ▸ decodes)⟩ ih

theorem Holds.lists (h : file.Holds stream ks) : file.Lists stream file.catalog ks := by
  obtain ⟨es, hscan, hcatalogues⟩ :=
    Encoding.scanFrom_of_decodeAll (Ahead.refl (start stream)) h.decodes []
  have hes : es = file.catalog.entries := Except.ok.inj (hscan.symm.trans h.scanned)
  rw [hes] at hcatalogues
  exact lists_of_catalogues rfl hcatalogues

theorem exists_holds (order : ByteOrder) (h : ∀ k ∈ ks, k.count ≤ wordLimit) :
    ∃ (file : KeywordFile) (stream : Bytes), file.Holds stream ks := by
  obtain ⟨stream, -, hall⟩ := @Writer.writeAll_of_decodes (.binary order) ks
    (fun k hk => ⟨_, Records.send_eq (h k hk) order, Records.decodes_bytesOf (h k hk) order⟩) [] 0
  obtain ⟨es, hscan, -⟩ := Encoding.scanFrom_of_decodeAll (Ahead.refl (start stream)) (hall 0) []
  exact ⟨⟨"", .binary order, stream.length, ⟨es⟩⟩, stream, hall 0, hscan⟩

theorem Holds.shows (h : file.Holds stream ks) :
    List.Forall₂ (file.Shows stream) file.catalog.entries ks := by
  have hlists : List.Forall₂ (file.Loads stream) file.catalog.entries ks := h.lists
  rw [List.forall₂_iff_zip] at hlists ⊢
  refine ⟨hlists.1, fun {e k} hmem => ?_⟩
  obtain ⟨hheader, hload⟩ := hlists.2 hmem
  obtain ⟨data, hdata, hplace, hread⟩ :=
    Encoding.mem_scanFrom (Ahead.refl (start stream)) h.scanned (List.of_mem_zip hmem).1
  refine ⟨hheader, whole_of_load hload, fun {α} _ htype hnumeric {i} hi => ?_⟩
  have htypes : e.type = k.type := congrArg Header.type hheader
  have hcounts : e.count = k.count := congrArg Header.count hheader
  have hslot := Keyword.getElem?_slots (whole_of_load hload)
    (ElementType.size_ne_zero_of_isNumeric hnumeric) hi
  obtain ⟨hlength, hvalue⟩ := List.getElem?_eq_some_iff.1
    (show (k.slots.map (Element.decode : Bytes → α))[i]? = some (Element.decode (k.slot i)) by
      rw [List.getElem?_map, hslot, Option.map_some])
  rw [← hvalue]
  exact readElement_of_readRange hlength (readRange_of_load (htype.trans htypes.symm)
    (htypes ▸ hnumeric) hdata hplace hread hload (Nat.le_succ i) (hcounts ▸ hi))

theorem Holds.exists_readElement {α : Type} [Element α] (h : file.Holds stream ks) {e : Entry}
    (he : e ∈ file.catalog.entries) (htype : Element.type α = e.type) (hnumeric : e.type.isNumeric)
    {i : Nat} (hi : i < e.count) : ∃ x : α, file.readElement stream e i = .ok x := by
  obtain ⟨k, -, hshows⟩ := exists_of_mem h.shows he
  have htypes : e.type = k.type := congrArg Header.type hshows.header
  have hcounts : e.count = k.count := congrArg Header.count hshows.header
  exact ⟨_, hshows.element (htype.trans htypes) (htypes ▸ hnumeric) (hcounts ▸ hi)⟩

namespace Lists

theorem whole_and_count_lt (h : file.Lists stream part ks) {k : Keyword} (hk : k ∈ ks) :
    k.Whole ∧ k.count < 2 ^ 64 := by
  obtain ⟨e, -, -, hload⟩ := exists_of_mem h.flip hk
  exact ⟨whole_of_load hload, count_lt_of_load hload⟩

theorem map_name (h : file.Lists stream part ks) :
    part.entries.map Entry.name = Keyword.names ks := by
  have hname : ∀ e k, file.Loads stream e k → e.name = k.name.val :=
    fun e k hload => congrArg Header.name hload.1
  exact List.forall₂_eq_eq_eq ▸ List.rel_map hname h

theorem named (h : file.Lists stream part ks) (name : String) :
    List.Forall₂ (file.Loads stream) (part.named name) (Keyword.called name ks) := by
  refine List.rel_filter (fun e k hload => ?_) h
  have hname : e.name = k.name.val := congrArg Header.name hload.1
  dsimp only
  rw [hname]

theorem count_eq (h : file.Lists stream part ks) (name : String) :
    part.count name = (Keyword.called name ks).length :=
  (h.named name).length_eq

theorem has_iff (h : file.Lists stream part ks) (name : String) :
    part.has name ↔ name ∈ Keyword.names ks := by
  rw [← h.map_name]
  simp [Catalog.has]

theorem get? (h : file.Lists stream part ks) (name : String) (i : Nat) :
    Option.Rel (file.Loads stream) (part.get? name i) (Keyword.called name ks)[i]? :=
  rel_getElem? (h.named name) i

theorem loadFrom_eq (h : file.Lists stream part ks) {name : String} {i : Nat} {k : Keyword}
    (hk : (Keyword.called name ks)[i]? = some k) : file.loadFrom stream part name i = .ok k := by
  have hget := h.get? name i
  rw [hk] at hget
  unfold loadFrom
  generalize part.get? name i = found at hget ⊢
  cases hget with
  | some hload => exact hload.2

theorem loadOptional_eq (h : file.Lists stream part ks) (name : String) :
    file.loadOptional stream part name = .ok (Keyword.first? name ks) := by
  have hget := h.get? name 0
  rw [← List.head?_eq_getElem?, Keyword.head?_called] at hget
  unfold loadOptional
  generalize part.get? name 0 = found, Keyword.first? name ks = first at hget ⊢
  cases hget with
  | none => rfl
  | some hload =>
    dsimp only
    rw [hload.2]
    rfl

theorem sections {name : String} {front : List Keyword} {sections : List (List Keyword)}
    (h : file.Lists stream part (front ++ sections.flatten))
    (hfront : name ∉ Keyword.names front)
    (hsections : ∀ s ∈ sections, IsSection name (Keyword.names s)) :
    file.Lists stream (part.head name) front ∧
      List.Forall₂ (file.Lists stream) (part.blocks name) sections := by
  obtain ⟨pieces, hback, hpieces⟩ := exists_flatten (List.forall₂_drop_append _ _ _ h)
  have hhead : file.Lists stream ⟨part.entries.take front.length⟩ front :=
    List.forall₂_take_append _ _ _ h
  have hpart : part = ⟨part.entries.take front.length ++ pieces.flatten⟩ := by
    rw [← hback, List.take_append_drop]
  have hnames : ∀ piece ∈ pieces, IsSection name (piece.map Entry.name) := by
    have hsame : pieces.map (·.map Entry.name) = sections.map Keyword.names :=
      List.forall₂_eq_eq_eq ▸
        List.rel_map (fun piece s hpiece => @map_name file stream ⟨piece⟩ s hpiece) hpieces
    intro piece hpiece
    have hmem := List.mem_map_of_mem (f := (·.map Entry.name)) hpiece
    rw [hsame] at hmem
    obtain ⟨s, hs, heq⟩ := List.mem_map.1 hmem
    exact heq ▸ hsections s hs
  rw [← hhead.map_name] at hfront
  rw [hpart, Catalog.head_append_flatten hfront hnames, Catalog.blocks_append_flatten hfront hnames,
    List.forall₂_map_left_iff]
  exact ⟨hhead, hpieces⟩

theorem exists_block {name : String} {front back : List Keyword}
    (h : file.Lists stream part (front ++ back)) (hfront : name ∉ Keyword.names front)
    (hback : IsSection name (Keyword.names back)) :
    ∃ block, part.blocks name = [block] ∧ file.Lists stream block back := by
  obtain ⟨-, hblocks⟩ := @sections file stream part name front [back] (by simpa using h) hfront
    (List.forall_mem_singleton.2 hback)
  obtain ⟨block, rest, hblock, hrest, hblocks⟩ := List.forall₂_cons_right_iff.1 hblocks
  cases hrest
  exact ⟨block, hblocks, hblock⟩

end Lists

end KeywordFile

end Reservoir
