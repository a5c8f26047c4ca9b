import Reservoir.Stream.Scan

/-!
Catalogs: the entries of a stream in their order, looked up by name and occurrence. The
entries before the first keyword of a name, and those from one keyword of that name up to
the next, are catalogs again, and together they are the whole.
-/

namespace Reservoir

structure Catalog where
  entries : List Entry
deriving DecidableEq, Repr

namespace Catalog

def empty : Catalog := ⟨[]⟩

def size (c : Catalog) : Nat := c.entries.length

def named (c : Catalog) (name : String) : List Entry :=
  c.entries.filter (·.name == name)

/-- The entry of an occurrence, counted from 0 within this catalog. -/
def get? (c : Catalog) (name : String) (occurrence : Nat) : Option Entry :=
  (c.named name)[occurrence]?

def count (c : Catalog) (name : String) : Nat := (c.named name).length

def has (c : Catalog) (name : String) : Bool := c.entries.any (·.name == name)

def names (c : Catalog) : List String :=
  (c.entries.filter (·.occurrence == 0)).map (·.name)

def head (c : Catalog) (name : String) : Catalog :=
  ⟨c.entries.takeWhile (·.name != name)⟩

def suffix? (name : String) : Nat → List Entry → Option (List Entry)
  | _, [] => none
  | occurrence, e :: es =>
    if e.name == name then
      match occurrence with
      | 0 => some (e :: es)
      | occurrence + 1 => suffix? name occurrence es
    else suffix? name occurrence es

/-- The entries from an occurrence of `name` up to the next one. -/
def block? (c : Catalog) (name : String) (occurrence : Nat) : Option Catalog :=
  match suffix? name occurrence c.entries with
  | some (e :: es) => some ⟨e :: es.takeWhile (·.name != name)⟩
  | _ => none

def blocks (c : Catalog) (name : String) : List Catalog :=
  (List.range (c.count name)).filterMap (c.block? name)

end Catalog

end Reservoir
