import Reservoir.KeywordFile

/-!
Scanned files that look their entries up by name. A table holds the places of the entries of every
name. A view is a range of the catalog, searched from its front like a file of its own. A walk goes
through a range and loads its keywords one after another, all of them or those of one name.
-/

namespace Reservoir

/-- For each name the places of its entries in a catalog. -/
structure PlaceTable where
  rows : List (String × Array Nat)
deriving DecidableEq, Repr

namespace PlaceTable

def empty : PlaceTable := ⟨[]⟩

def places? (t : PlaceTable) (name : String) : Option (Array Nat) := t.rows.lookup name

def pushRow (name : String) (place : Nat) :
    List (String × Array Nat) → List (String × Array Nat)
  | [] => [(name, #[place])]
  | (other, places) :: rows =>
    if other = name then (other, places.push place) :: rows
    else (other, places) :: pushRow name place rows

def push (t : PlaceTable) (name : String) (place : Nat) : PlaceTable :=
  ⟨pushRow name place t.rows⟩

def pushAll (t : PlaceTable) (place : Nat) : List Entry → PlaceTable
  | [] => t
  | e :: es => (t.push e.name place).pushAll (place + 1) es

def ofEntries (entries : List Entry) : PlaceTable := empty.pushAll 0 entries

end PlaceTable

structure Walk where
  file : KeywordFile
  place : Nat
  stop : Nat

namespace Walk

def left (w : Walk) : Nat := w.stop - w.place

def next (w : Walk) : Option Entry × Walk :=
  if w.place < w.stop then
    (w.file.catalog.entries[w.place]?, { w with place := w.place + 1 })
  else (none, w)

theorem left_next {w w' : Walk} {e : Entry} (h : w.next = (some e, w')) : w'.left < w.left := by
  unfold next at h
  split at h
  · obtain ⟨-, rfl⟩ := Prod.mk.inj h
    simp only [left]
    omega
  · cases h

def nextNamed (name : String) (w : Walk) : Option Entry × Walk :=
  match _h : w.next with
  | (none, w') => (none, w')
  | (some e, w') => if e.name == name then (some e, w') else nextNamed name w'
termination_by w.left
decreasing_by exact left_next _h

/-- What a caller gets who goes on step by step, for each step with what the stream holds by
then. -/
def loads (step : Walk → Option Entry × Walk) (w : Walk) :
    List Bytes → List (Option (Outcome Keyword))
  | [] => []
  | stream :: streams =>
    (step w).1.map (w.file.load stream) :: loads step (step w).2 streams

def loadAll (step : Walk → Option Entry × Walk) (w : Walk) (stream : Bytes) :
    List (Outcome Keyword) :=
  (w.loads step (List.replicate (w.left + 1) stream)).filterMap id

end Walk

structure View where
  file : KeywordFile
  start : Nat
  stop : Nat

namespace View

variable (v : View)

def part : Catalog := ⟨(v.file.catalog.entries.take v.stop).drop v.start⟩

def get? (name : String) (occurrence : Nat) : Option Entry := v.part.get? name occurrence

def count (name : String) : Nat := v.part.count name

def has (name : String) : Bool := (v.get? name 0).isSome

def walk : Walk := ⟨v.file, v.start, v.stop⟩

end View

/-- A file with its table. Before the first scan both catalog and table are empty. -/
structure IndexedFile where
  file : KeywordFile
  table : PlaceTable
deriving DecidableEq, Repr

namespace IndexedFile

def ofStream (path : String) (stream : Bytes) (hints : Encoding.Hints) :
    Outcome IndexedFile := do
  return ⟨← KeywordFile.ofStream path stream hints, .empty⟩

/-- Makes catalog and table anew. A fault leaves both as they were. -/
def scan (f : IndexedFile) (stream : Bytes) : Outcome Unit × IndexedFile :=
  match f.file.scan stream with
  | .ok file => (.ok (), ⟨file, .ofEntries file.catalog.entries⟩)
  | .error fault => (.error fault, f)

def scanned (f : IndexedFile) (stream : Bytes) : Outcome IndexedFile := do
  let (answer, f) := f.scan stream
  answer
  return f

variable (f : IndexedFile)

def entries : List Entry := f.file.catalog.entries

def names : List String := f.file.catalog.names

/-- The entry of an occurrence of a name. -/
def get? (name : String) (occurrence : Nat) : Option Entry := do
  let places ← f.table.places? name
  let place ← places[occurrence]?
  f.entries[place]?

def count (name : String) : Nat := ((f.table.places? name).map Array.size).getD 0

def has (name : String) : Bool := (f.table.places? name).isSome

def loadNamed (stream : Bytes) (name : String) (occurrence : Nat) : Outcome Keyword :=
  match f.get? name occurrence with
  | some entry => f.file.load stream entry
  | none => reject (.missingKeyword name occurrence)

def view : View := ⟨f.file, 0, f.entries.length⟩

/-- The entries from an occurrence of a name up to the next one. -/
def block? (name : String) (occurrence : Nat) : Option View := do
  let places ← f.table.places? name
  let start ← places[occurrence]?
  return ⟨f.file, start, places[occurrence + 1]?.getD f.entries.length⟩

def head (name : String) : View :=
  ⟨f.file, 0, ((f.table.places? name).bind (·[0]?)).getD f.entries.length⟩

def walk : Walk := f.view.walk

end IndexedFile

end Reservoir
