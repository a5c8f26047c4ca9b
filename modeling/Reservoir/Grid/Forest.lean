import Reservoir.Grid.Basic
import Reservoir.Grid.Connection
import Reservoir.Grid.MapAxes

/-!
Forests of grids: the main grid and its refinements, each attached to an earlier grid, with
the connections between all of them. Grids are known by their index, 0 for the main grid;
refinements are also known by name and by number, and no two share either.
-/

namespace Reservoir

structure Forest where
  main : Grid
  refinements : List Grid
  /-- The indices of refinements by name and by number. -/
  byName : List (String × Nat)
  byNumber : List (Int × Nat)
  connections : List Connection
  mapAxes : Option MapAxes

namespace Forest

def mainName : String := "GLOBAL"

def ofMain (main : Grid) : Forest := ⟨main, [], [], [], [], none⟩

variable (forest : Forest)

def grids : List Grid := forest.main :: forest.refinements

def grid? (id : Nat) : Option Grid := forest.grids[id]?

def grid (id : Nat) : Outcome Grid :=
  match forest.grid? id with
  | some grid => .ok grid
  | none => .error (.outOfRange .grid id forest.grids.length)

def named? (name : String) : Option Nat := forest.byName.lookup name

def numbered? (number : Int) : Option Nat := forest.byNumber.lookup number

/-- Looks a refinement up by a name that may carry blanks at its end. -/
def refinementNamed? (name : String) : Option Nat :=
  forest.named? (String.ofList (Text.trimEnd name.toList))

def gridNumbered? (number : Int) : Option Grid :=
  if number = 0 then some forest.main
  else (forest.numbered? number).bind forest.grid?

def sizes : Connection.Sizes := fun number =>
  (forest.grids.find? (·.number == number)).map Grid.size

/-- The box of cells that host a refinement; the main grid has none. -/
def hostBox (id : Nat) : Outcome (Option (Place × Place)) := do
  let grid ← forest.grid id
  match grid.parent with
  | none => return none
  | some parent => return grid.hostBox (← forest.grid parent)

def modify (id : Nat) (f : Grid → Grid) : Forest :=
  match id with
  | 0 => { forest with main := f forest.main }
  | id + 1 => { forest with refinements := forest.refinements.modify id f }

def parentNamed (name parent : String) : Outcome Nat :=
  if parent = "" ∨ parent = mainName then .ok 0
  else
    match forest.named? parent with
    | some id => .ok id
    | none => .error (.topology (.unknownParent name parent))

/-- The cells that a refinement lies in must exist and be free. -/
def claimHosts (name : String) (parent : Grid) : List (Option Nat) → Outcome (List Nat)
  | [] => .ok []
  | host :: rest =>
    match host.bind fun h => (parent.refinedBy[h]?).map fun owner => (h, owner) with
    | none => .error (.topology (.hostOutside name parent.name))
    | some (h, some owner) =>
      let ownerName := ((forest.grid? owner).map Grid.name).getD ""
      .error (.topology (.hostTaken name h parent.name ownerName))
    | some (h, none) => do return h :: (← claimHosts name parent rest)

def cover (id : Nat) (hosts : List Nat) (parent : Grid) : Grid :=
  { parent with
    refinedBy := hosts.foldl (fun owners h => owners.setIfInBounds h (some id)) parent.refinedBy
    children := parent.children ++ [id] }

/-- Attaches a grid as the next refinement. Its hosts are cells of the grid named `parent`;
a missing host is one that can be no cell. -/
def install (grid : Grid) (hosts : List (Option Nat)) (parent : String) : Outcome Forest := do
  if (forest.named? grid.name).isSome then
    .error (.topology (.duplicateName grid.name))
  else if grid.number = 0 ∨ (forest.numbered? grid.number).isSome then
    .error (.topology (.duplicateNumber grid.number grid.name))
  else
    let parentId ← forest.parentNamed grid.name parent
    let parentGrid ← forest.grid parentId
    let hosts ← forest.claimHosts grid.name parentGrid hosts
    let id := forest.refinements.length + 1
    let forest := forest.modify parentId (cover id hosts)
    let grid := { grid with parent := some parentId, hosts := hosts.toArray }
    return { forest with
      refinements := forest.refinements ++ [grid]
      byName := (grid.name, id) :: forest.byName
      byNumber := (grid.number, id) :: forest.byNumber }

end Forest

end Reservoir
