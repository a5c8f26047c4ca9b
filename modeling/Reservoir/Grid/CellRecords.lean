import Reservoir.Grid.Pillars

/-!
Grids stored cell by cell. Every cell has a `COORDS` record, which tells its place, its
activity and perhaps its host, and a `CORNERS` record. The main grid takes the first of them
and may lack some; each refinement then takes exactly as many as it has cells.
-/

namespace Reservoir

/-- What the records read so far tell of each cell of a grid. -/
structure CellTable where
  cells : Array Cell
  activity : Array Int
  hosts : Array (Option Nat)

namespace CellTable

def empty (size : Nat) : CellTable where
  cells := Array.replicate size (Vector.replicate 8 Point.zero)
  activity := Array.replicate size 0
  hosts := Array.replicate size none

def cellNumber (dims : Dims) (record : Nat) (values : List Int) : Outcome Nat :=
  match values with
  | i :: j :: k :: _ =>
    let place : Place := ⟨(i - 1).toNat, (j - 1).toNat, (k - 1).toNat⟩
    if 0 < i ∧ 0 < j ∧ 0 < k ∧ dims.Contains place then .ok (dims.number place)
    else reject (.cellRecordPlace record [i, j, k] dims.nx dims.ny dims.nz)
  | _ => reject (.cellRecordPlace record values dims.nx dims.ny dims.nz)

def cellOf (axes : Option MapAxes) (values : Array Float) : Cell :=
  Vector.ofFn fun c => Grid.onMap axes (pointAt values (3 * c.val))

/-- Records have 4, 5 or 7 values; those of a refinement must have 7. -/
def checkLength (record count : Nat) (refinement : Bool) : Outcome Unit :=
  if count = 7 ∨ (!refinement ∧ (count = 4 ∨ count = 5)) then .ok ()
  else reject (.cellRecordLength record count refinement)

def set (table : CellTable) (g : Nat) (values : List Int) (cell : Cell) : CellTable where
  cells := table.cells.setIfInBounds g cell
  activity := table.activity.setIfInBounds g (values.getD 4 1)
  hosts :=
    match values[5]? with
    | some host => table.hosts.setIfInBounds g (Forest.hostCell host)
    | none => table.hosts

section Reading

variable (file : KeywordFile) (stream : Bytes)

def addRecord (dims : Dims) (refinement : Bool) (axes : Option MapAxes) (table : CellTable)
    (record : Nat) : Outcome CellTable := do
  let coords ← file.loadNamed stream "COORDS" record
  let corners ← file.loadNamed stream "CORNERS" record
  Grid.checkCount corners 24
  let values ← coords.integers
  checkLength record values.length refinement
  let g ← cellNumber dims record values
  if g < dims.size then
    let xyz ← corners.doubles
    return table.set g values (cellOf axes (xyz.map Double.toFloat).toArray)
  else .error .crash

def read (dims : Dims) (first count : Nat) (refinement : Bool) (axes : Option MapAxes) :
    Outcome CellTable :=
  (List.range' first count).foldlM (addRecord file stream dims refinement axes)
    (empty dims.size)

end Reading

def toGrid (table : CellTable) (name : String) (number : Int) (dims : Dims) : Grid :=
  Grid.ofCells name number dims table.cells.toList (some table.activity.toList)

end CellTable

namespace Forest

section Reading

variable (file : KeywordFile) (stream : Bytes)

def recordedDims (index : Nat) : Outcome Dims := do
  let values ← (← file.loadNamed stream "DIMENS" index).integers
  match values with
  | nx :: ny :: nz :: _ =>
    if 0 < nx ∧ 0 < ny ∧ 0 < nz then return ⟨nx.toNat, ny.toNat, nz.toNat⟩
    else reject (.cellDimensions values)
  | _ => .error (.sizeMismatch "DIMENS" 3 values.length)

/-- Adds the refinement at `index`, whose records start at `first`. A number of cells that brings
the records beyond a word is more than a program holds. -/
def addRecorded (records : Nat) (axes : Option MapAxes) (forest : Forest) (first index : Nat) :
    Outcome (Forest × Nat) := do
  let dims ← recordedDims file stream index
  let lgr ← file.loadNamed stream "LGR" (index - 1)
  let name ← lgr.getString 0
  let parent ← if 1 < lgr.count then lgr.getString 1 else pure ""
  let last := first + dims.size
  if last ≤ records then
    let table ← CellTable.read file stream dims first dims.size true axes
    let forest ← forest.install (table.toGrid name index dims) table.hosts.toList parent
    return (forest, last)
  else if records < wrap last then
    reject (.tooFewCellRecords name first (wrap last) records)
  else .error .crash

def ofRecords (axes : Option MapAxes) : Outcome Forest := do
  let records := file.catalog.count "COORDS"
  let corners := file.catalog.count "CORNERS"
  if corners ≠ records then
    .error (.sizeMismatch "CORNERS records" records corners)
  else
    let dims ← recordedDims file stream 0
    let table ← CellTable.read file stream dims 0 (min records dims.size) false axes
    let main := ofMain (table.toGrid mainName 0 dims)
    let (forest, _) ← (List.range' 1 (file.catalog.count "DIMENS" - 1)).foldlM
      (fun (forest, first) index => addRecorded file stream records axes forest first index)
      (main, dims.size)
    return forest

end Reading

end Forest

end Reservoir
