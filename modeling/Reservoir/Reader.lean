import Reservoir.KeywordFile

/-!
Keyword files with the one place that all their accesses share. An access first goes to where
it has to read, so what it finds does not depend on where the one before it stopped.
-/

namespace Reservoir

structure Reader where
  file : KeywordFile
  stream : Bytes
  place : Nat

inductive Access where
  | load (entry : Entry)
  | elements (α : Type) [Element α] (entry : Entry) (start stop : Nat)
  | next (index : Nat)

namespace Reader

def seek (r : Reader) (place : Nat) : Reader := { r with place }

def cursor (r : Reader) : Cursor := .seek r.stream r.place

/-- Loads the keyword of an entry. A fault leaves the reader at some place `lost`. -/
def load (r : Reader) (lost : Nat) (entry : Entry) : Outcome Keyword × Reader :=
  match r.file.loadAt entry (r.seek entry.offset).cursor with
  | .ok (k, next) => (.ok k, r.seek next.position)
  | .error fault => (.error fault, r.seek lost)

/-- The elements of a range, and the reader behind the last of them. Numbers in binary records
are read where they lie; nothing is read for an empty range. -/
def elements (α : Type) [Element α] (r : Reader) (lost : Nat) (entry : Entry)
    (start stop : Nat) : Outcome (List α) × Reader :=
  let values := r.file.readRange r.stream entry start stop
  match values, r.file.encoding with
  | .error _, _ => (values, r.seek lost)
  | .ok _, .text => (values, (r.load lost entry).2)
  | .ok _, .binary _ =>
    if start = stop then (values, r)
    else (values, r.seek (Records.elementOffset entry.dataOffset entry.type (stop - 1)
      + entry.type.size))

def step (r : Reader) (lost : Nat) : Access → Reader
  | .load entry => (r.load lost entry).2
  | @Access.elements α _ entry start stop => (r.elements α lost entry start stop).2
  | .next index =>
    match r.file.catalog.entries[index]? with
    | some entry => (r.load lost entry).2
    | none => r

/-- The reader after accesses, each with the place where a fault in it would leave the reader. -/
def after (r : Reader) (history : List (Nat × Access)) : Reader :=
  history.foldl (fun r (lost, access) => r.step lost access) r

end Reader

end Reservoir
