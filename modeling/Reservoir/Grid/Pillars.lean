import Reservoir.Grid.Forest

/-!
Grids stored as pillars and depths. Every section of a file, the part before the first
`LGR` keyword and the blocks from there on, holds the dimensions, the pillars, the depths
and perhaps the activity of one grid; a refinement also tells its hosts and its parent.
-/

namespace Reservoir

namespace Grid

def axisSize (axis : String) (n : Int) : Outcome Nat :=
  if 0 < n then .ok n.toNat else reject (.dimension axis n)

def dimsFrom (context : String) (start : Nat) (values : List Int) : Outcome Dims :=
  match values.drop start with
  | nx :: ny :: nz :: _ => do
    return ⟨← axisSize "nx" nx, ← axisSize "ny" ny, ← axisSize "nz" nz⟩
  | _ => .error (.sizeMismatch context (start + 3) values.length)

def checkCount (k : Keyword) (expected : Nat) : Outcome Unit :=
  if k.count = expected then .ok () else .error (.sizeMismatch k.name.val expected k.count)

structure Arrays where
  pillars : List Double
  depths : List Double
  activity : Option (List Int)

def checkActivity (size : Nat) : Option Keyword → Outcome (Option (List Int))
  | none => .ok none
  | some k => do
    checkCount k size
    return some (← k.integers)

def arraysOf (dims : Dims) (pillars depths : Keyword) (activity : Option Keyword) :
    Outcome Arrays := do
  checkCount pillars (wrap dims.pillarCount)
  checkCount depths (wrap dims.depthCount)
  let activity ← checkActivity dims.size activity
  return ⟨← pillars.doubles, ← depths.doubles, activity⟩

def onMap (axes : Option MapAxes) (p : Point) : Point :=
  match axes with
  | some axes => axes.toMap p
  | none => p

def readCells (read : Nat → Outcome Cell) : Nat → Array Cell → Outcome (Array Cell)
  | 0, cells => .ok cells
  | left + 1, cells => do readCells read left (cells.push (← read cells.size))

def readCell (dims : Dims) (pillars depths : Array Float) (axes : Option MapAxes) (g : Nat) :
    Outcome Cell := do
  let cell ← cellAt dims.nx dims.ny pillars depths (dims.nth g)
  return cell.map (onMap axes)

/-- Cells are read for all places, be they more than a word counts. -/
def ofArrays (name : String) (number : Int) (dims : Dims) (arrays : Arrays)
    (axes : Option MapAxes) : Outcome Grid := do
  let pillars := (arrays.pillars.map Double.toFloat).toArray
  let depths := (arrays.depths.map Double.toFloat).toArray
  let cells ← readCells (readCell dims pillars depths axes) dims.count #[]
  return ofCells name number dims cells.toList arrays.activity

end Grid

namespace Forest

def axesOf : Option Keyword → Outcome (Option MapAxes)
  | none => .ok none
  | some k => do MapAxes.ofValues (← k.doubles)

def ofKeywords (dims : Dims) (pillars depths : Keyword) (activity axes : Option Keyword) :
    Outcome Forest := do
  if dims.nx = 0 ∨ dims.ny = 0 ∨ dims.nz = 0 then
    reject (.zeroDimension dims.nx dims.ny dims.nz)
  else
    let arrays ← Grid.arraysOf dims pillars depths activity
    let axes ← axesOf axes
    let main ← Grid.ofArrays mainName 0 dims arrays axes
    return { ofMain main with mapAxes := axes }

/-- A host as it is stored, counted from 1; nothing if it can be no cell. -/
def hostCell (stored : Int) : Option Nat :=
  if 0 < stored then some (stored - 1).toNat else none

section Sections

variable (file : KeywordFile) (stream : Bytes)

def sectionDims (part : Catalog) : Outcome (Dims × Option Int) := do
  match ← file.loadOptional stream part "GRIDHEAD" with
  | some head =>
    let values ← head.integers
    return (← Grid.dimsFrom "GRIDHEAD" 1 values, values[4]?)
  | none =>
    match ← file.loadOptional stream part "DIMENS" with
    | some dimens => return (← Grid.dimsFrom "DIMENS" 0 (← dimens.integers), none)
    | none => reject .noDimensions

/-- The grid of a section. A declared number counts if it is positive. -/
def sectionGrid (part : Catalog) (name : String) (number : Int) (axes : Option MapAxes) :
    Outcome Grid := do
  let (dims, declared) ← sectionDims file stream part
  let pillars ← file.loadFrom stream part "COORD" 0
  let depths ← file.loadFrom stream part "ZCORN" 0
  let activity ← file.loadOptional stream part "ACTNUM"
  let arrays ← Grid.arraysOf dims pillars depths activity
  let number := (declared.filter (0 < ·)).getD number
  Grid.ofArrays name number dims arrays axes

def sectionParent (part : Catalog) : Outcome String := do
  match ← file.loadOptional stream part "LGRPARNT" with
  | some k => if k.count = 0 then return "" else k.getString 0
  | none => return ""

def addSection (axes : Option MapAxes) (forest : Forest) (part : Catalog) (index : Nat) :
    Outcome Forest := do
  let name ← (← file.loadFrom stream part "LGR" 0).getString 0
  let parent ← sectionParent file stream part
  let grid ← sectionGrid file stream part name (index + 1) axes
  let hosts ← file.loadFrom stream part "HOSTNUM" 0
  Grid.checkCount hosts grid.size
  forest.install grid ((← hosts.integers).map hostCell) parent

def ofSections (axes : Option MapAxes) : Outcome Forest := do
  let main ← sectionGrid file stream (file.catalog.head "LGR") mainName 0 axes
  (file.catalog.blocks "LGR").zipIdx.foldlM
    (fun forest (part, index) => addSection file stream axes forest part index) (ofMain main)

end Sections

end Forest

end Reservoir
