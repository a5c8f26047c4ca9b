import Reservoir.Summary.Series

/-!
Questions to a series. The answer to a question for a whole column makes the series keep that
column; no other answer changes it. The files may change from one question to the next.
-/

namespace Reservoir

inductive Query where
  | column (position : Nat)
  | columnNamed (key : String)
  | value (position index : Nat)
  | valueAtTime (position : Nat) (days : Double)
  | valueAtReport (position step : Nat)
  | interpolated (position : Nat) (days : Double)
deriving DecidableEq, Repr

inductive Answer where
  | column (values : List Double)
  | noColumn
  | value (x : Double)
deriving DecidableEq, Repr

namespace Answer

def ofColumn? : Option (List Double) → Answer
  | some values => column values
  | none => noColumn

end Answer

namespace Query

def columnOf? (catalog : SummaryCatalog) : Query → Option Nat
  | column position => some position
  | columnNamed key => catalog.position? key
  | _ => none

end Query

namespace Series

/-- An answer and the series that gave it; after a fault the series is as it was. -/
def settle {α : Type} (s : Series) (answer : α → Answer) :
    Outcome (Series × α) → Outcome Answer × Series
  | .ok (s, x) => (.ok (answer x), s)
  | .error fault => (.error fault, s)

def ask (s : Series) (disk : Disk) : Query → Outcome Answer × Series
  | .column position => s.settle .column (s.column disk position)
  | .columnNamed key => s.settle .ofColumn? (s.columnNamed? disk key)
  | .value position index => ((s.valueAt disk position index).map .value, s)
  | .valueAtTime position days => ((s.valueAtTime disk position days).map .value, s)
  | .valueAtReport position step => ((s.valueAtReport disk position step).map .value, s)
  | .interpolated position days => ((s.interpolate disk position days).map .value, s)

/-- The series after questions, each asked while the files are as on its disk. -/
def after (s : Series) (history : List (Disk × Query)) : Series :=
  history.foldl (fun s (disk, query) => (s.ask disk query).2) s

end Series

end Reservoir
