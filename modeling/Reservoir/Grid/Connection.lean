import Reservoir.KeywordFile

/-!
Connections between cells that are not neighbours. A part of the file opened by `NNCHEAD`
joins cells of one grid, or cells of the main grid with those of one refinement; a part
opened by `NNCHEADA` joins the cells of two refinements. Cells are numbered from 1 there.
-/

namespace Reservoir

structure Connection where
  grid₁ : Int
  cell₁ : Nat
  grid₂ : Int
  cell₂ : Nat
  /-- The place among the values of its keyword. -/
  position : Nat
deriving DecidableEq, Repr

namespace Connection

def sameGrids (a b : Connection) : Bool := a.grid₁ == b.grid₁ && a.grid₂ == b.grid₂

def touches (c : Connection) (grid : Int) (cell : Nat) : Bool :=
  (c.grid₁ == grid && c.cell₁ == cell) || (c.grid₂ == grid && c.cell₂ == cell)

def le (a b : Connection) : Bool :=
  if a.grid₁ ≠ b.grid₁ then a.grid₁ < b.grid₁
  else if a.grid₂ ≠ b.grid₂ then a.grid₂ < b.grid₂
  else if a.cell₁ ≠ b.cell₁ then a.cell₁ < b.cell₁
  else a.cell₂ ≤ b.cell₂

def ofCell (connections : List Connection) (grid : Int) (cell : Nat) : List Connection :=
  connections.filter (·.touches grid cell)

abbrev Sizes := Int → Option Nat

def endpoint (sizes : Sizes) (grid number : Int) : Outcome Nat :=
  match sizes grid with
  | none => .error (.topology (.unknownGrid grid))
  | some size =>
    if 1 ≤ number ∧ number ≤ size then .ok (number - 1).toNat
    else .error (.topology (.endpointOutside number grid size))

/-- In a dual porosity model the fractures are numbered after the cells. -/
def isFracture (sizes : Sizes) (grid number : Int) : Bool :=
  match sizes grid with
  | none => false
  | some size => size < number && number ≤ 2 * size

/-- Numbers of cells of two grids, value by value. -/
structure Pairing where
  grid₁ : Int
  grid₂ : Int
  numbers : List (Int × Int)
deriving DecidableEq, Repr

/-- The connections of a pairing from a position on; those with a fracture are left out. -/
def ofNumbers (sizes : Sizes) (dualPorosity : Bool) (grid₁ grid₂ : Int) :
    Nat → List (Int × Int) → Outcome (List Connection)
  | _, [] => .ok []
  | position, (a, b) :: rest =>
    if dualPorosity && (isFracture sizes grid₁ a || isFracture sizes grid₂ b) then
      ofNumbers sizes dualPorosity grid₁ grid₂ (position + 1) rest
    else do
      let cell₁ ← endpoint sizes grid₁ a
      let cell₂ ← endpoint sizes grid₂ b
      let more ← ofNumbers sizes dualPorosity grid₁ grid₂ (position + 1) rest
      return ⟨grid₁, cell₁, grid₂, cell₂, position⟩ :: more

def ofPairing (sizes : Sizes) (dualPorosity : Bool) (p : Pairing) : Outcome (List Connection) :=
  ofNumbers sizes dualPorosity p.grid₁ p.grid₂ 0 p.numbers

section Reading

variable (file : KeywordFile) (stream : Bytes)

def loadNumbers (part : Catalog) (first second : String) : Outcome (List (Int × Int)) := do
  let a ← (← file.loadFrom stream part first 0).integers
  let b ← (← file.loadFrom stream part second 0).integers
  if a.length = b.length then return a.zip b
  else .error (.sizeMismatch (second ++ " paired with " ++ first) a.length b.length)

variable (sizes : Sizes) (dualPorosity : Bool)

def readPart (part : Catalog) : Outcome (List Connection) := do
  let head ← (← file.loadFrom stream part "NNCHEAD" 0).integers
  let grid := head.getD 1 0
  let inside ←
    if part.has "NNC1" then do
      let numbers ← loadNumbers file stream part "NNC1" "NNC2"
      ofPairing sizes dualPorosity ⟨grid, grid, numbers⟩
    else pure []
  let across ←
    if part.has "NNCL" then do
      let numbers ← loadNumbers file stream part "NNCG" "NNCL"
      ofPairing sizes dualPorosity ⟨0, grid, numbers⟩
    else pure []
  return inside ++ across

def readAmalgamation (index : Nat) (part : Catalog) : Outcome (List Connection) := do
  let head ← (← file.loadFrom stream part "NNCHEADA" 0).integers
  match head with
  | grid₁ :: grid₂ :: _ =>
    let numbers ← loadNumbers file stream part "NNA1" "NNA2"
    ofPairing sizes dualPorosity ⟨grid₁, grid₂, numbers⟩
  | _ => reject (.connectionHead index head.length)

/-- All connections of a file in their order; equal ones stay as they were read. -/
def readAll : Outcome (List Connection) := do
  let parts ← (file.catalog.blocks "NNCHEAD").mapM (readPart file stream sizes dualPorosity)
  let amalgamations ← (file.catalog.blocks "NNCHEADA").zipIdx.mapM fun (part, index) =>
    readAmalgamation file stream sizes dualPorosity index part
  return (parts.flatten ++ amalgamations.flatten).mergeSort le

end Reading

end Connection

end Reservoir
