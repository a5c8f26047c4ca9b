import Reservoir.Fault
import Reservoir.Size

/-!
The box of cells of a grid. Places come in an order along the first axis, then the second, then the
third, and a place and its rank determine each other. The numbers of cells are words: they are the
ranks of a grid that has no more cells than a word counts.
-/

namespace Reservoir

structure Dims where
  nx : Nat
  ny : Nat
  nz : Nat
deriving DecidableEq, Repr

structure Place where
  i : Nat
  j : Nat
  k : Nat
deriving DecidableEq, Repr

namespace Dims

def count (d : Dims) : Nat := d.nx * d.ny * d.nz

def pillarCount (d : Dims) : Nat := 6 * (d.nx + 1) * (d.ny + 1)

def depthCount (d : Dims) : Nat := 8 * d.nx * d.ny * d.nz

def Contains (d : Dims) (p : Place) : Prop := p.i < d.nx ∧ p.j < d.ny ∧ p.k < d.nz

instance (d : Dims) (p : Place) : Decidable (d.Contains p) :=
  inferInstanceAs (Decidable (_ ∧ _ ∧ _))

def rank (d : Dims) (p : Place) : Nat := p.i + p.j * d.nx + p.k * d.nx * d.ny

def nth (d : Dims) (g : Nat) : Place :=
  ⟨g % d.nx, g % (d.nx * d.ny) / d.nx, g / (d.nx * d.ny)⟩

def layer (d : Dims) : Nat := wrap (d.nx * d.ny)

def size (d : Dims) : Nat := wrap d.count

def number (d : Dims) (p : Place) : Nat := wrap (d.rank p)

def place (d : Dims) (g : Nat) : Place := ⟨g % d.nx, g % d.layer / d.nx, g / d.layer⟩

def number? (d : Dims) (p : Place) : Outcome Nat :=
  if d.Contains p then .ok (d.number p)
  else .error (.outOfRange .place (max (max p.i p.j) p.k) d.size)

def check (d : Dims) (g : Nat) : Outcome Unit :=
  if g < d.size then .ok () else .error (.outOfRange .globalCell g d.size)

def place? (d : Dims) (g : Nat) : Outcome Place := do
  d.check g
  return d.place g

variable {d : Dims}

theorem size_eq (h : d.count < UInt64.size) : d.size = d.count := wrap_of_lt h

theorem place_eq (h : d.nx * d.ny < UInt64.size) (g : Nat) : d.place g = d.nth g := by
  rw [place, layer, wrap_of_lt h, nth]

end Dims

end Reservoir
