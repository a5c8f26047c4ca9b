import Reservoir.KeywordFile
import Reservoir.Summary.Calendar
import Reservoir.Summary.KeyTable
import Reservoir.Summary.Pattern
import Reservoir.Summary.Variable

/-!
Summary catalogs: the variables of a run by position, their keys, and where the run starts.
They are read from parallel keywords with one element for each variable. A key that several
variables carry belongs to the last of them.
-/

namespace Reservoir

structure SummaryCatalog where
  members : List Variable
  extent : Extent
  restartStep : Option Int
  restartCase : Option String
  calendar : Calendar
  start : Moment
  separator : String

def lastPlace? {α : Type} (p : α → Bool) : List α → Option Nat
  | [] => none
  | x :: xs =>
    match lastPlace? p xs with
    | some place => some (place + 1)
    | none => if p x then some 0 else none

theorem lastPlace?_eq_none {α : Type} {p : α → Bool} {xs : List α} :
    lastPlace? p xs = none ↔ ∀ x ∈ xs, p x = false := by
  induction xs with
  | nil => simp [lastPlace?]
  | cons x xs ih =>
    unfold lastPlace?
    cases h : lastPlace? p xs with
    | some place =>
      have hx : ¬ ∀ x ∈ xs, p x = false := fun hp => by simp [ih.2 hp] at h
      simp only [reduceCtorEq, List.mem_cons, forall_eq_or_imp, false_iff]
      exact fun hp => hx hp.2
    | none =>
      have hx := ih.1 h
      by_cases hp : p x <;> simp [hp]
      exact hx

theorem lastPlace?_eq_some {α : Type} {p : α → Bool} {xs : List α} {place : Nat} :
    lastPlace? p xs = some place ↔
      (∃ x, xs[place]? = some x ∧ p x = true) ∧ ∀ x ∈ xs.drop (place + 1), p x = false := by
  induction xs generalizing place with
  | nil => simp [lastPlace?]
  | cons x xs ih =>
    unfold lastPlace?
    cases place with
    | zero =>
      rw [List.drop_succ_cons, List.drop_zero, ← lastPlace?_eq_none]
      cases lastPlace? p xs <;> simp
    | succ place =>
      rw [List.drop_succ_cons, List.getElem?_cons_succ, ← ih]
      cases lastPlace? p xs with
      | some later => simp
      | none => by_cases hx : p x <;> simp [hx]

namespace SummaryCatalog

def size (c : SummaryCatalog) : Nat := c.members.length

def atPosition? (c : SummaryCatalog) (position : Nat) : Option Variable := c.members[position]?

def getVariable (c : SummaryCatalog) (position : Nat) : Outcome Variable :=
  match c.atPosition? position with
  | some v => .ok v
  | none => .error (.outOfRange .summaryPosition position c.size)

def keysOf (c : SummaryCatalog) (v : Variable) : List String := v.keys c.separator

def keyTable (c : SummaryCatalog) : KeyTable := .ofRows (c.members.map c.keysOf)

def position? (c : SummaryCatalog) (key : String) : Option Nat := c.keyTable.position? key

def hasKey (c : SummaryCatalog) (key : String) : Bool := (c.position? key).isSome

def named? (c : SummaryCatalog) (key : String) : Option (Nat × Variable) := do
  let position ← c.position? key
  return (position, ← c.atPosition? position)

def keysMatchingBy (c : SummaryCatalog) (library : Regex.Library) (pattern : String) :
    Outcome (List String) := do
  let isMatch ← Pattern.compile library pattern
  return (c.keyTable.keys.filter isMatch).mergeSort fun a b => !(b < a)

def keysMatching (c : SummaryCatalog) (pattern : String) : Outcome (List String) :=
  c.keysMatchingBy Regex.library pattern

/-- The position of the last variable with a keyword. -/
def place? (c : SummaryCatalog) (keyword : String) : Option Nat :=
  lastPlace? (fun v => v.keyword == keyword) c.members

inductive TimeSource where
  | days (position : Nat)
  | hours (position : Nat)
  | calendar (day month year : Nat)

def inHours (v : Variable) : Bool :=
  String.ofList (v.unit.toList.map Char.toUpper) == "HOURS"

/-- Simulated time comes before calendar dates. -/
def timeSource? (c : SummaryCatalog) : Option TimeSource :=
  match c.place? "TIME" with
  | some position =>
    if (c.atPosition? position).any inHours then some (.hours position) else some (.days position)
  | none => do
    return .calendar (← c.place? "DAY") (← c.place? "MONTH") (← c.place? "YEAR")

/-- A keyword that must be there; whatever is wrong with it, it counts as missing. -/
def required (file : KeywordFile) (stream : Bytes) (name : String) : Outcome Keyword :=
  match file.loadNamed stream name 0 with
  | .ok keyword => .ok keyword
  | .error fault => if fault.isInput then .error fault else reject (.missingSummaryKeyword name)

def checkParallel (keyword : Keyword) (count : Nat) : Outcome Unit :=
  if keyword.count = count then .ok ()
  else reject (.summaryLength keyword.name.val keyword.count count)

def parallel (file : KeywordFile) (stream : Bytes) (count : Nat) (name : String) :
    Outcome Keyword := do
  let keyword ← required file stream name
  checkParallel keyword count
  return keyword

def parallel? (file : KeywordFile) (stream : Bytes) (count : Nat) (name : String) :
    Outcome (Option Keyword) := do
  match ← file.loadOptional stream file.catalog name with
  | none => return none
  | some keyword => do
    checkParallel keyword count
    return some keyword

def noNumber : Int := -1

def readNumbers (file : KeywordFile) (stream : Bytes) (count : Nat) : Outcome (List Int) := do
  match ← parallel? file stream count "NUMS" with
  | some keyword => keyword.integers
  | none => return List.replicate count noNumber

def readPlaces (file : KeywordFile) (stream : Bytes) (count : Nat) :
    Outcome (List (Option (String × CellAddress))) := do
  match ← parallel? file stream count "LGRS" with
  | none => return List.replicate count none
  | some refinements =>
    let axis (name : String) : Outcome (List Int) := do
      (← parallel file stream count name).integers
    let i ← axis "NUMLX"
    let j ← axis "NUMLY"
    let k ← axis "NUMLZ"
    let names ← refinements.strings
    return names.zipWith (fun name (i, j, k) => some (name, ⟨i, j, k⟩)) (i.zip (j.zip k))

/-- The case a run was restarted from, which several elements may hold in pieces. -/
def readRestartCase (file : KeywordFile) (stream : Bytes) : Outcome (Option String) := do
  match ← file.loadOptional stream file.catalog "RESTART" with
  | none => return none
  | some keyword =>
    let pieces ← keyword.strings
    let name := String.ofList (pieces.flatMap String.toList)
    return if Text.trimmed name = "" then none else some name

def readStart (calendar : Calendar) (file : KeywordFile) (stream : Bytes) : Outcome Moment := do
  let values ← (← required file stream "STARTDAT").integers
  match calendar.start? values with
  | some start => return start
  | none => reject (.startDate values)

def readDimensions (file : KeywordFile) (stream : Bytes) : Outcome (Extent × Option Int) := do
  let values ← (← required file stream "DIMENS").integers
  match values with
  | _ :: nx :: ny :: nz :: rest => return (⟨nx, ny, nz⟩, rest[1]?.filter (0 < ·))
  | _ => .error (.sizeMismatch "DIMENS" 6 values.length)

/-- Variables of a refinement alone have a place in it. -/
def variableOf (extent : Extent) (keyword owner : String) (number : Int) (unit : String)
    (place : Option (String × CellAddress)) : Variable :=
  let keyword := Text.trimmed keyword
  .ofFields extent keyword owner number unit
    (if (VariableClass.ofKeyword keyword).isLocal then place else none)

def readBy (calendar : Calendar) (file : KeywordFile) (stream : Bytes) (separator : String) :
    Outcome SummaryCatalog := do
  let keywords ← (← required file stream "KEYWORDS").strings
  let count := keywords.length
  let ownerNames := if file.catalog.has "WGNAMES" then "WGNAMES" else "NAMES"
  let owners ← (← parallel file stream count ownerNames).strings
  let units ← (← parallel file stream count "UNITS").strings
  let numbers ← readNumbers file stream count
  let (extent, restartStep) ← readDimensions file stream
  let start ← readStart calendar file stream
  let restartCase ← readRestartCase file stream
  let places ← readPlaces file stream count
  let fields := keywords.zip (owners.zip (numbers.zip (units.zip places)))
  let members := fields.map fun (keyword, owner, number, unit, place) =>
    variableOf extent keyword owner number unit place
  return ⟨members, extent, restartStep, restartCase, calendar, start, separator⟩

def read (file : KeywordFile) (stream : Bytes) (separator : String) : Outcome SummaryCatalog :=
  readBy .gregorian file stream separator

end SummaryCatalog

end Reservoir
