import Reservoir.Grid.Cell

/-!
A single grid: its cells, which of them are active, how it is attached to the grid that it
refines, and which of its own cells are refined. Active cells are numbered in the order of
their cell numbers.
-/

namespace Reservoir

structure Grid where
  name : String
  /-- The number that connections know the grid by. -/
  number : Int
  dims : Dims
  cells : Array Cell
  /-- A cell is active if its value is positive. -/
  activity : Array Int
  activeIndex : Array (Option Nat)
  activeCells : Array Nat
  parent : Option Nat
  children : List Nat
  /-- For each cell of a refinement the cell of the parent that it lies in. -/
  hosts : Array Nat
  /-- For each cell the refinement that covers it. -/
  refinedBy : Array (Option Nat)

namespace Grid

/-- The number among the active cells of each cell, from `next` on. -/
def activeIndices : Nat → List Int → List (Option Nat)
  | _, [] => []
  | next, a :: rest =>
    if 0 < a then some next :: activeIndices (next + 1) rest
    else none :: activeIndices next rest

def activeFrom : Nat → List Int → List Nat
  | _, [] => []
  | g, a :: rest => if 0 < a then g :: activeFrom (g + 1) rest else activeFrom (g + 1) rest

def ofCells (name : String) (number : Int) (dims : Dims) (cells : List Cell)
    (activity : Option (List Int)) : Grid :=
  let activity := activity.getD (List.replicate dims.size 1)
  { name, number, dims
    cells := cells.toArray
    activity := activity.toArray
    activeIndex := (activeIndices 0 activity).toArray
    activeCells := (activeFrom 0 activity).toArray
    parent := none
    children := []
    hosts := #[]
    refinedBy := Array.replicate dims.size none }

variable (grid : Grid)

def size : Nat := grid.dims.size

def activeSize : Nat := grid.activeCells.size

def isMain : Bool := grid.parent.isNone

def cellIndex (p : Place) : Outcome Nat := grid.dims.number? p

def place (g : Nat) : Outcome Place := grid.dims.place? g

def lookup {α : Type} (values : Array α) (g : Nat) : Outcome α := do
  grid.dims.check g
  match values[g]? with
  | some x => return x
  | none => .error .crash

def activeIndexOf (g : Nat) : Outcome (Option Nat) := grid.lookup grid.activeIndex g

def cellOfActive (a : Nat) : Outcome Nat :=
  match grid.activeCells[a]? with
  | some g => .ok g
  | none => .error (.outOfRange .activeCell a grid.activeSize)

def isActive (g : Nat) : Outcome Bool := do return (← grid.activeIndexOf g).isSome

def activityOf (g : Nat) : Outcome Int := grid.lookup grid.activity g

def cell (g : Nat) : Outcome Cell := grid.lookup grid.cells g

def corner (g c : Nat) : Outcome Point := do
  let cell ← grid.cell g
  if h : c < 8 then return cell[c] else .error (.outOfRange .corner c 8)

def center (g : Nat) : Outcome Point := do return (← grid.cell g).center

def depth (g : Nat) : Outcome Float := do return (← grid.center g).z

def thickness (g : Nat) : Outcome Float := do return (← grid.cell g).thickness

/-- The first of `left` cells from `g` on that passes a test. A cell that is not there stops the
program. -/
def findFrom (test : Cell → Bool) : Nat → Nat → Outcome (Option Nat)
  | 0, _ => .ok none
  | left + 1, g =>
    match grid.cells[g]? with
    | some cell => if test cell then .ok (some g) else findFrom test left (g + 1)
    | none => .error .crash

def findInLayer (k : Nat) (test : Cell → Bool) : Outcome (Option Nat) :=
  if k < grid.dims.nz then
    let first := wrap (k * grid.dims.layer)
    grid.findFrom test (wrap (first + grid.dims.layer) - first) first
  else .error (.outOfRange .layer k grid.dims.nz)

def findPoint (k : Nat) (p : Point) : Outcome (Option Nat) :=
  grid.findInLayer k (·.contains p)

def findOutline (k : Nat) (x y : Float) : Outcome (Option Nat) :=
  grid.findInLayer k (·.coversOutline ⟨x, y, 0⟩)

def findLayers (p : Point) : Nat → Nat → Outcome (Option Nat)
  | 0, _ => .ok none
  | left + 1, k => do
    match ← grid.findPoint k p with
    | some g => return some g
    | none => findLayers p left (k + 1)

def find? (p : Point) : Outcome (Option Nat) := grid.findLayers p grid.dims.nz 0

def hostOf (g : Nat) : Outcome (Option Nat) := do
  grid.dims.check g
  return grid.hosts[g]?

def refinementOf (g : Nat) : Outcome (Option Nat) := grid.lookup grid.refinedBy g

/-- The least box of cells of the parent that holds all hosts. -/
def hostBox (parent : Grid) : Option (Place × Place) :=
  match grid.hosts.toList.filterMap fun g => (parent.place g).toOption with
  | [] => none
  | first :: rest =>
    some (rest.foldl (fun (low, high) p =>
      (⟨min low.i p.i, min low.j p.j, min low.k p.k⟩,
        ⟨max high.i p.i, max high.j p.j, max high.k p.k⟩)) (first, first))

end Grid

end Reservoir
