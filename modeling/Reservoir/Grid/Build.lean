import Reservoir.Grid.CellRecords

/-!
The forest of grids that a file describes, in whichever layout it is stored, with its map
axes and connections.
-/

namespace Reservoir.Forest

variable (file : KeywordFile) (stream : Bytes)

def isDualPorosity : Outcome Bool :=
  match file.catalog.get? "FILEHEAD" 0 with
  | none => .ok false
  | some entry =>
    if 5 < entry.count then do
      let flag : Int32 ← file.readElement stream entry 5
      return flag != 0
    else .ok false

def hasCellRecords : Bool := file.catalog.has "COORDS" && !file.catalog.has "ZCORN"

/-- Reads the grids of a file. The axes are kept even if they are not to be applied. -/
def build (applyAxes : Bool) : Outcome Forest := do
  let axes ← axesOf (← file.loadOptional stream (file.catalog.head "LGR") "MAPAXES")
  let applied := if applyAxes then axes else none
  let forest ←
    if hasCellRecords file then ofRecords file stream applied
    else ofSections file stream applied
  let dualPorosity ← isDualPorosity file stream
  let connections ← Connection.readAll file stream forest.sizes dualPorosity
  return { forest with mapAxes := axes, connections }

end Reservoir.Forest
