import Reservoir.Disk
import Reservoir.Summary.Catalog

/-!
Time series of a summary catalog. Opening reads the time of every ministep; values are read
when asked for, alone or as the column of a variable. A column is kept once it has been read,
whatever happens to the files later.
-/

namespace Reservoir

structure Ministep where
  file : KeywordFile
  entry : Entry
  number : Int
  reportStep : Nat
  days : Double
deriving DecidableEq, Repr

structure Series where
  catalog : SummaryCatalog
  ministeps : List Ministep
  columns : List (Nat × List Double)

/-- What opening has seen so far; the number is that of a ministep whose values are still to
come. -/
structure SeriesStart where
  reportStep : Nat
  ministeps : List Ministep
  number : Option Int

def KeywordFile.readParameter (file : KeywordFile) (stream : Bytes) (entry : Entry)
    (position : Nat) : Outcome Double :=
  match entry.type with
  | .double => file.readElement stream entry position
  | _ => do
    let x : Single ← file.readElement stream entry position
    return x.widen

def SummaryCatalog.daysOf (catalog : SummaryCatalog) (file : KeywordFile) (stream : Bytes)
    (entry : Entry) : Outcome Double :=
  match catalog.timeSource? with
  | some (.days position) => file.readParameter stream entry position
  | some (.hours position) => do
    return .ofFloat ((← file.readParameter stream entry position).toFloat / 24)
  | some (.calendar day month year) => do
    let day := (← file.readParameter stream entry day).roundToInt32
    let month := (← file.readParameter stream entry month).roundToInt32
    let year := (← file.readParameter stream entry year).roundToInt32
    match catalog.calendar.date? year month day with
    | some date => return .ofFloat (catalog.calendar.daysBetween catalog.start (.midnight date))
    | none => reject (.calendarDate day month year)
  | none => reject .noTimeSource

namespace SeriesStart

def checkCount (catalog : SummaryCatalog) (path : String) (entry : Entry) : Outcome Unit :=
  if entry.count = catalog.size then .ok ()
  else reject (.parameterCount entry.offset path entry.count catalog.size)

def checkLater (path : String) (last : Option Ministep) (days : Double) : Outcome Unit :=
  match last with
  | none => .ok ()
  | some last =>
    if days.le last.days then reject (.timeNotIncreasing last.days days path) else .ok ()

def addMinistep (s : SeriesStart) (catalog : SummaryCatalog) (file : KeywordFile)
    (stream : Bytes) (entry : Entry) : Outcome SeriesStart := do
  checkCount catalog file.path entry
  let days ← catalog.daysOf file stream entry
  checkLater file.path s.ministeps.getLast? days
  let number := s.number.getD s.ministeps.length
  return { s with
    ministeps := s.ministeps ++ [⟨file, entry, number, s.reportStep, days⟩], number := none }

def addEntry (catalog : SummaryCatalog) (file : KeywordFile) (stream : Bytes)
    (s : SeriesStart) (entry : Entry) : Outcome SeriesStart :=
  match entry.name with
  | "SEQHDR" => .ok { s with reportStep := s.reportStep + 1 }
  | "MINISTEP" => do
    let number : Int32 ← file.readElement stream entry 0
    return { s with number := some number.toInt }
  | "PARAMS" => s.addMinistep catalog file stream entry
  | _ => .ok s

/-- A number is for a ministep of the same file. -/
def addFile (catalog : SummaryCatalog) (disk : Disk) (s : SeriesStart) (file : KeywordFile) :
    Outcome SeriesStart :=
  file.catalog.entries.foldlM (addEntry catalog file (disk.content file.path))
    { s with number := none }

end SeriesStart

namespace Series

def ofFiles (catalog : SummaryCatalog) (files : List KeywordFile) (disk : Disk) :
    Outcome Series := do
  let first := (catalog.restartStep.getD 0).toNat
  let last ← files.foldlM (SeriesStart.addFile catalog disk) ⟨first, [], none⟩
  return ⟨catalog, last.ministeps, []⟩

def size (s : Series) : Nat := s.ministeps.length

def times (s : Series) : List Double := s.ministeps.map Ministep.days

def reportSteps (s : Series) : List Nat := s.ministeps.map Ministep.reportStep

def numbers (s : Series) : List Int := s.ministeps.map Ministep.number

def ministep (s : Series) (index : Nat) : Outcome Ministep :=
  match s.ministeps[index]? with
  | some m => .ok m
  | none => .error (.outOfRange .ministep index s.size)

def timeAt (s : Series) (index : Nat) : Outcome Double := do
  return (← s.ministep index).days

def dateAt (s : Series) (index : Nat) : Outcome Moment := do
  let days := (← s.ministep index).days
  let seconds := Double.ofFloat (days.toFloat * 86400)
  match (seconds.roundScaled? Moment.secondLength).bind
      (s.catalog.calendar.add? s.catalog.start) with
  | some moment => return moment
  | none => reject (.timeOutOfCalendar days)

def column? (s : Series) (position : Nat) : Option (List Double) := s.columns.lookup position

def isCached (s : Series) (position : Nat) : Bool := (s.column? position).isSome

def readValue (disk : Disk) (position : Nat) (m : Ministep) : Outcome Double :=
  m.file.readParameter (disk.content m.file.path) m.entry position

def column (s : Series) (disk : Disk) (position : Nat) : Outcome (Series × List Double) := do
  let _ ← s.catalog.getVariable position
  match s.column? position with
  | some values => return (s, values)
  | none =>
    let values ← s.ministeps.mapM (readValue disk position)
    return ({ s with columns := (position, values) :: s.columns }, values)

def columnNamed? (s : Series) (disk : Disk) (key : String) :
    Outcome (Series × Option (List Double)) :=
  match s.catalog.position? key with
  | some position => do
    let (s, values) ← s.column disk position
    return (s, some values)
  | none => .ok (s, none)

def valueAt (s : Series) (disk : Disk) (position index : Nat) : Outcome Double := do
  let _ ← s.catalog.getVariable position
  let m ← s.ministep index
  match (s.column? position).bind (·[index]?) with
  | some value => return value
  | none => readValue disk position m

/-- The end of the first ones among `size` places from `start` on: those before it have the
property, those from it on do not, if the places are so divided. -/
def bisect (p : Nat → Bool) (start size : Nat) : Nat :=
  if _h : 1 < size then
    let half := size / 2
    bisect p (if p (start + half) then start + half else start) (size - half)
  else if size = 1 ∧ p start then start + 1 else start
termination_by size
decreasing_by omega

def ministepAtTime (s : Series) (days : Double) : Outcome Nat :=
  match s.times.head?, s.times.getLast? with
  | some first, some last =>
    if days.lt first then .error (.outOfRange .simulatedTime 0 s.size)
    else if last.lt days || days.isNaN then .error (.outOfRange .simulatedTime s.size s.size)
    else .ok (bisect (fun index => s.times[index]?.any (·.lt days)) 0 s.size)
  | _, _ => .error (.outOfRange .simulatedTime 0 s.size)

def valueAtTime (s : Series) (disk : Disk) (position : Nat) (days : Double) :
    Outcome Double := do
  s.valueAt disk position (← s.ministepAtTime days)

def between (before after days : Double) (atBefore atAfter : Double) : Double :=
  let span := after.toFloat - before.toFloat
  let weightBefore := (after.toFloat - days.toFloat) / span
  let weightAfter := (days.toFloat - before.toFloat) / span
  .ofFloat (weightBefore * atBefore.toFloat + weightAfter * atAfter.toFloat)

/-- The value at a time on the straight line between the ministeps around it. A rate holds
over the whole time up to its ministep. -/
def interpolate (s : Series) (disk : Disk) (position : Nat) (days : Double) :
    Outcome Double := do
  let index ← s.ministepAtTime days
  let after ← s.timeAt index
  if index = 0 ∨ after.same days then s.valueAt disk position index
  else if (← s.catalog.getVariable position).isRate then s.valueAt disk position index
  else
    let before ← s.timeAt (index - 1)
    if after.toFloat - before.toFloat ≤ 0 then s.valueAt disk position index
    else
      let atBefore ← s.valueAt disk position (index - 1)
      let atAfter ← s.valueAt disk position index
      return between before after days atBefore atAfter

def noReport (s : Series) (step : Nat) : Fault :=
  .outOfRange .reportStep step ((s.reportSteps.getLast?.map (· + 1)).getD 0)

def firstOfReport (s : Series) (step : Nat) : Outcome Nat :=
  match s.reportSteps.findIdx? (· == step) with
  | some index => .ok index
  | none => .error (s.noReport step)

def lastOfReport (s : Series) (step : Nat) : Outcome Nat :=
  match lastPlace? (· == step) s.reportSteps with
  | some index => .ok index
  | none => .error (s.noReport step)

def valueAtReport (s : Series) (disk : Disk) (position step : Nat) : Outcome Double := do
  s.valueAt disk position (← s.lastOfReport step)

end Series

end Reservoir
