import Reservoir.Summary.Quantity
import Reservoir.Text.Blank
import Reservoir.Text.Number

/-!
Summary variables and their keys. The class of a variable decides which of its fields
identify it; they are joined to a key. Some classes have a second key with the plain number
in place of a cell or of a pair of regions.
-/

namespace Reservoir

/-- A cell as variables name it, counted from 1 along each axis. -/
structure CellAddress where
  i : Int
  j : Int
  k : Int
deriving DecidableEq, Repr

structure Extent where
  nx : Int
  ny : Int
  nz : Int
deriving DecidableEq, Repr

structure Variable where
  keyword : String
  owner : Option String
  number : Int
  unit : String
  refinement : Option String
  cell : Option CellAddress
deriving DecidableEq, Repr

def IsWord (n : Int) : Prop := Int32.minValue.toInt ≤ n ∧ n ≤ Int32.maxValue.toInt

instance (n : Int) : Decidable (IsWord n) := inferInstanceAs (Decidable (_ ∧ _))

namespace CellAddress

def inWords? (a : CellAddress) : Option CellAddress :=
  if IsWord a.i ∧ IsWord a.j ∧ IsWord a.k then some a else none

theorem inWords?_eq_some {a b : CellAddress} :
    a.inWords? = some b ↔ (IsWord a.i ∧ IsWord a.j ∧ IsWord a.k) ∧ a = b := by
  simp [inWords?]

def text (a : CellAddress) : String :=
  String.ofList (Text.signedDecimal a.i ++ ',' :: Text.signedDecimal a.j
    ++ ',' :: Text.signedDecimal a.k)

end CellAddress

namespace Extent

/-- How many cells there are; an extent without layers has one layer. The count is a word of 64
bits, in which it wraps. -/
def wordSize (e : Extent) : Int := (Int64.ofInt (e.nx * e.ny * max e.nz 1)).toInt

def locate? (e : Extent) (number : Int) : Option CellAddress :=
  if 0 < number ∧ 0 < e.nx ∧ 0 < e.ny then
    let layer := e.nx * e.ny
    let index := number - 1
    if index < e.wordSize then
      some ⟨index % layer % e.nx + 1, index % layer / e.nx + 1, index / layer + 1⟩
    else none
  else none

theorem locate?_eq_some {e : Extent} {number : Int} {a : CellAddress} :
    e.locate? number = some a ↔
      (0 < number ∧ 0 < e.nx ∧ 0 < e.ny) ∧ number - 1 < e.wordSize ∧
        a = ⟨(number - 1) % (e.nx * e.ny) % e.nx + 1, (number - 1) % (e.nx * e.ny) / e.nx + 1,
          (number - 1) / (e.nx * e.ny) + 1⟩ := by
  simp only [locate?]
  split
  · next hpos =>
    split
    · next hindex => simp only [hpos, hindex, true_and, and_self, Option.some.injEq, eq_comm]
    · next hindex => simp only [hindex, false_and, and_false, reduceCtorEq]
  · next hpos => simp only [hpos, false_and, reduceCtorEq]

def address? (e : Extent) (number : Int) : Option CellAddress :=
  (e.locate? number).bind CellAddress.inWords?

end Extent

def nameIn (text : String) : Option String :=
  let name := Text.trimmed text
  if name = "" then none else some name

namespace Variable

def category (v : Variable) : VariableClass := .ofKeyword v.keyword

/-- A variable from what is stored for it. The cell of a local one is stored, that of a block
or a completion follows from its number. -/
def ofFields (extent : Extent) (keyword owner : String) (number : Int) (unit : String)
    (place : Option (String × CellAddress)) : Variable :=
  let cell :=
    match VariableClass.ofKeyword keyword with
    | .block | .completion => extent.address? number
    | .localBlock | .localCompletion => place.map (·.2)
    | _ => none
  ⟨keyword, nameIn owner, number, Text.trimmed unit, place.bind fun (name, _) => nameIn name,
    cell⟩

def isRate (v : Variable) : Bool := v.category.isRate v.keyword

def isTotal (v : Variable) : Bool := v.category.isTotal v.keyword

def isHistorical (v : Variable) : Bool := v.category.isHistorical v.keyword

/-- The owner of variables that belong to nothing real. -/
def noOwner : String := ":+:+:+:+"

def regionBase : Int := 32768

/-- The two regions of a flow; the second one is stored with an offset of 10. -/
def regions? (v : Variable) : Option (Int × Int) :=
  if v.category = .regionToRegion then
    let first := v.number.tmod regionBase
    some (first, (v.number - first).tdiv regionBase - 10)
  else none

def isOwned (v : Variable) : Bool :=
  match v.owner with
  | some name => name != noOwner
  | none => false

def isIdentified (v : Variable) : Bool :=
  match v.category with
  | .misc | .field | .localBlock | .network => true
  | .well | .group | .localWell | .localCompletion => v.isOwned
  | .completion | .segment => v.isOwned && 0 ≤ v.number
  | .region | .regionToRegion | .block | .aquifer => 0 ≤ v.number

def integerText (n : Int) : String := String.ofList (Text.signedDecimal n)

def identity (v : Variable) : Option (List String) :=
  let owner := v.owner.getD ""
  let refinement := v.refinement.getD ""
  let cell := v.cell.map CellAddress.text
  match v.category with
  | .field | .misc => some []
  | .well | .group | .network => some [owner]
  | .region | .aquifer => some [integerText v.number]
  | .segment => some [owner, integerText v.number]
  | .regionToRegion =>
    v.regions?.map fun (first, second) => [integerText first ++ "-" ++ integerText second]
  | .block => cell.map fun cell => [cell]
  | .completion => cell.map fun cell => [owner, cell]
  | .localWell => some [refinement, owner]
  | .localBlock => cell.map fun cell => [refinement, cell]
  | .localCompletion => cell.map fun cell => [refinement, owner, cell]

def plainIdentity (v : Variable) : Option (List String) :=
  match v.category with
  | .regionToRegion | .block => some [integerText v.number]
  | .completion => some [v.owner.getD "", integerText v.number]
  | _ => none

def keyOf (separator : String) (v : Variable) (identity : Option (List String)) :
    Option String :=
  if v.isIdentified then
    identity.map fun parts => separator.intercalate (v.keyword :: parts)
  else none

def key? (separator : String) (v : Variable) : Option String :=
  v.keyOf separator v.identity

def plainKey? (separator : String) (v : Variable) : Option String :=
  v.keyOf separator v.plainIdentity

def keys (separator : String) (v : Variable) : List String :=
  (v.key? separator).toList ++ (v.plainKey? separator).toList

end Variable

end Reservoir
