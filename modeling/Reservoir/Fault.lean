import Reservoir.Bytes
import Reservoir.Decimal.Text
import Reservoir.Decimal.Word
import Reservoir.ElementType
import Reservoir.Text.Quoted

/-!
What can go wrong, as causes: defects of the data, conflicts between grids, places outside
of their range, and failures of reading. Each cause has a kind and a message.
-/

namespace Reservoir

/-- Data that does not have the form it must have. -/
inductive Defect where
  -- names, strings and types
  | nameTooLong (name : String)
  | nameNotPrintable (name : String)
  | nameBlank
  | textNotAscii (text : String)
  | textTooLong (text : String) (width : Nat)
  | widthOutOfRange (width : Nat)
  | unknownTypeCode (code : String)
  -- records
  | negativeMarker (marker : Int)
  | recordTooLong (length : Nat)
  | headerLength (length : Nat)
  | headerNameNotAscii (bytes : Bytes)
  | headerCountNegative (name : String) (count : Int)
  | headerCountTooLarge (name : String) (count : Nat)
  | dataRecordLength (name : String) (found expected : Nat)
  -- lines
  | headerLine (line : String)
  | headerCount (count name : String)
  | openQuote (line : String)
  | badValue (type : ElementType) (text name : String)
  | badSlot (width : Nat) (name line : String)
  | missingLines (name : String) (found expected : Nat)
  -- streams and catalogs
  | unknownEncoding
  | noKeyword
  | staleEnd (name : String) (offset : Nat)
  | staleFound (name : String) (offset : Nat) (found : String)
  | missingKeyword (name : String) (occurrence : Nat)
  -- grids
  | dimension (axis : String) (value : Int)
  | noDimensions
  | zeroDimension (nx ny nz : Nat)
  | cellDimensions (values : List Int)
  | connectionHead (part count : Nat)
  | cellRecordLength (record count : Nat) (refinement : Bool)
  | cellRecordPlace (record : Nat) (place : List Int) (nx ny nz : Nat)
  | tooFewCellRecords (name : String) (first last count : Nat)
  -- summaries
  | missingSummaryKeyword (name : String)
  | summaryLength (name : String) (count expected : Nat)
  | startDate (values : List Int)
  | keyPattern (pattern reason : String)
  | parameterCount (offset : Nat) (path : String) (count expected : Nat)
  | timeNotIncreasing (last next : Double) (path : String)
  | calendarDate (day month year : Int)
  | noTimeSource
  | timeOutOfCalendar (days : Double)
deriving DecidableEq, Repr

/-- Grids, refinements and connections that do not fit together. -/
inductive Conflict where
  | duplicateName (name : String)
  | duplicateNumber (number : Int) (name : String)
  | unknownParent (name parent : String)
  | hostOutside (name parent : String)
  | hostTaken (name : String) (host : Nat) (parent owner : String)
  | unknownGrid (number : Int)
  | endpointOutside (endpoint number : Int) (size : Nat)
deriving DecidableEq, Repr

inductive IndexSpace where
  | element
  | grid
  | globalCell
  | place
  | activeCell
  | corner
  | layer
  | summaryPosition
  | ministep
  | simulatedTime
  | reportStep
deriving DecidableEq, Repr

inductive Fault where
  | missingFile
  | undecodableLine
  | malformed (defect : Defect)
  | truncated (expected found : Nat)
  | framing (leading trailing : Int)
  | endOfStream
  | outOfRange (space : IndexSpace) (index length : Nat)
  | topology (conflict : Conflict)
  | sizeMismatch (context : String) (expected found : Nat)
  | typeMismatch (keyword expected found : String)
  | badStart (cause : Fault)
  | stale (name : String) (offset : Nat) (cause : Fault)
  -- an access past the end of an array, which stops the program
  | crash
deriving DecidableEq, Repr

/-- The classes that callers tell apart. -/
inductive FaultKind where
  | input
  | format
  | truncated
  | framing
  | endOfStream
  | outOfRange
  | topology
  | sizeMismatch
  | typeMismatch
deriving DecidableEq, Repr

private def integers (values : List Int) : String :=
  Text.bracketed (values.map fun x => String.ofList (Text.signedDecimal x))

private def days (x : Double) : String :=
  String.ofList (BinaryFormat.double.render x.toNumber).positional

namespace Defect

def message : Defect → String
  | nameTooLong name => s!"Keyword name '{name}' is longer than 8 characters"
  | nameNotPrintable name =>
    "Keyword name " ++ Text.quoted name ++ " contains non-printable characters"
  | nameBlank => "Keyword name is blank"
  | textNotAscii text => "String " ++ Text.quoted text ++ " is not ASCII"
  | textTooLong text width => s!"String '{text}' does not fit in {width} characters"
  | widthOutOfRange width => s!"String width {width} is outside 1..=999"
  | unknownTypeCode code => s!"Unrecognized element type code: '{code}'"
  | negativeMarker marker => s!"Negative record length marker: {marker}"
  | recordTooLong length => s!"Record of {length} bytes exceeds the marker range"
  | headerLength length => s!"Keyword header record has {length} bytes, expected 16"
  | headerNameNotAscii bytes =>
    "Keyword name is not ASCII: " ++ Text.bracketed (bytes.map fun b => toString b.toNat)
  | headerCountNegative name count => s!"Keyword '{name}' declares a negative count: {count}"
  | headerCountTooLarge name count =>
    s!"Keyword '{name}' has {count} elements, more than a header can declare"
  | dataRecordLength name found expected =>
    s!"Data record of '{name}' has {found} bytes, expected {expected}"
  | headerLine line => "Line does not parse as a keyword header: " ++ Text.quoted line
  | headerCount count name => s!"Invalid element count '{count}' for '{name}'"
  | openQuote line => "Unterminated quoted string in line " ++ Text.quoted line
  | badValue type text name =>
    "Invalid " ++ type.codeText ++ s!" value '{text}' in keyword '{name}'"
  | badSlot width name line =>
    s!"Expected a quoted {width} character value in keyword '{name}': " ++ Text.quoted line
  | missingLines name found expected =>
    s!"Keyword '{name}' ends after {found} of {expected} data lines"
  | unknownEncoding => "Leading record does not parse as a keyword header"
  | noKeyword => "Stream holds no keyword"
  | staleEnd name offset =>
    s!"Keyword '{name}' at offset " ++ Text.offset offset
      ++ " no longer decodes consistently: end of stream"
  | staleFound name offset found =>
    s!"Keyword '{name}' at offset " ++ Text.offset offset
      ++ s!" no longer decodes consistently: found '{found}'"
  | missingKeyword name occurrence => s!"Keyword '{name}' occurrence {occurrence} is missing"
  | dimension axis value => s!"Grid dimension {axis} is not positive: {value}"
  | noDimensions => "Grid section has neither GRIDHEAD nor DIMENS"
  | zeroDimension nx ny nz => "Grid dimensions must be positive: " ++ Text.triple nx ny nz
  | cellDimensions values => "GRID dimensions must be positive: " ++ integers values
  | connectionHead part count =>
    s!"NNCHEADA section {part} has {count} elements, expected at least 2"
  | cellRecordLength record count refinement =>
    s!"COORDS record {record} has {count} values"
      ++ if refinement then ", LGR cells need 7" else ", expected 4, 5 or 7"
  | cellRecordPlace record place nx ny nz =>
    s!"COORDS record {record} addresses cell " ++ integers place ++ s!" outside {nx}x{ny}x{nz}"
  | tooFewCellRecords name first last count =>
    s!"LGR '{name}' needs cell records {first}..{last}, the file has {count}"
  | missingSummaryKeyword name => s!"Summary catalog has no {name} keyword"
  | summaryLength name count expected =>
    s!"Summary keyword {name} has {count} elements, KEYWORDS has {expected}"
  | startDate values => "Invalid STARTDAT " ++ integers values
  | keyPattern pattern reason => s!"Invalid key pattern '{pattern}': {reason}"
  | parameterCount offset path count expected =>
    "PARAMS at offset " ++ Text.offset offset
      ++ s!" of {path} has {count} values, the catalog has {expected}"
  | timeNotIncreasing last next path =>
    "Simulated time does not increase from " ++ days last ++ " to " ++ days next
      ++ s!" days in {path}"
  | calendarDate day month year => s!"Invalid ministep date {day}/{month}/{year}"
  | noTimeSource => "Summary catalog has neither TIME nor DAY/MONTH/YEAR"
  | timeOutOfCalendar time => "Ministep time " ++ days time ++ " days is not a valid date"

end Defect

namespace Conflict

def message : Conflict → String
  | duplicateName name => s!"Duplicate LGR name '{name}'"
  | duplicateNumber number name => s!"Duplicate LGR number {number} for '{name}'"
  | unknownParent name parent => s!"LGR '{name}' refers to unknown parent '{parent}'"
  | hostOutside name parent => s!"LGR '{name}' has a host cell outside parent '{parent}'"
  | hostTaken name host parent owner =>
    s!"LGR '{name}' claims host cell {host} of '{parent}', already refined by '{owner}'"
  | unknownGrid number => s!"NNC refers to unknown grid number {number}"
  | endpointOutside endpoint number size =>
    s!"NNC endpoint {endpoint} is outside grid {number} of {size} cells"

end Conflict

namespace IndexSpace

def name : IndexSpace → String
  | element => "element"
  | grid => "grid"
  | globalCell => "global cell"
  | place => "cell (i,j,k)"
  | activeCell => "active cell"
  | corner => "cell corner"
  | layer => "layer"
  | summaryPosition => "summary position"
  | ministep => "ministep"
  | simulatedTime => "simulated time"
  | reportStep => "report step"

end IndexSpace

namespace Fault

def kind : Fault → FaultKind
  | missingFile | undecodableLine => .input
  | malformed _ | badStart _ | stale _ _ _ => .format
  | truncated _ _ => .truncated
  | framing _ _ => .framing
  | endOfStream => .endOfStream
  | outOfRange _ _ _ | crash => .outOfRange
  | topology _ => .topology
  | sizeMismatch _ _ _ => .sizeMismatch
  | typeMismatch _ _ _ => .typeMismatch

def message : Fault → String
  | missingFile => "NotFound"
  | undecodableLine => "InvalidData"
  | malformed defect => "Invalid format: " ++ defect.message
  | truncated expected found =>
    s!"Truncated record: expected {expected} bytes, but only {found} were available"
  | framing leading trailing =>
    s!"Record framing error: header marker {leading} does not match trailer marker {trailing}"
  | endOfStream => "End of stream"
  | outOfRange space index length =>
    space.name ++ s!" index {index} is out of range (length {length})"
  | topology conflict => "Invalid topology: " ++ conflict.message
  | sizeMismatch context expected found =>
    s!"Size mismatch for {context}: expected {expected} elements, but found {found}"
  | typeMismatch keyword expected found =>
    s!"Type mismatch for keyword '{keyword}': expected {expected}, found {found}"
  | badStart cause =>
    "Invalid format: Leading record does not parse as a keyword: " ++ cause.message
  | stale name offset cause =>
    s!"Invalid format: Keyword '{name}' at offset " ++ Text.offset offset
      ++ " no longer decodes consistently: " ++ cause.message
  | crash => "index out of bounds"

def isFormat (fault : Fault) : Bool :=
  match fault.kind with
  | .format | .framing | .sizeMismatch | .typeMismatch => true
  | .input | .truncated | .endOfStream | .outOfRange | .topology => false

/-- Failures of reading are not explained by the data. -/
def isInput (fault : Fault) : Bool :=
  fault.kind == .input

end Fault

abbrev Outcome := Except Fault

def reject {α : Type} (defect : Defect) : Outcome α :=
  .error (.malformed defect)

namespace Outcome

variable {α β : Type}

@[simp] theorem ok_bind (a : α) (f : α → Outcome β) : (Except.ok a >>= f) = f a := rfl

@[simp] theorem error_bind (fault : Fault) (f : α → Outcome β) :
    ((Except.error fault : Outcome α) >>= f) = Except.error fault := rfl

@[simp] theorem pure_eq (a : α) : (pure a : Outcome α) = Except.ok a := rfl

@[simp] theorem reject_bind (defect : Defect) (f : α → Outcome β) :
    (reject defect >>= f) = reject defect := rfl

theorem bind_eq_ok {x : Outcome α} {f : α → Outcome β} {b : β} :
    (x >>= f) = Except.ok b ↔ ∃ a, x = Except.ok a ∧ f a = Except.ok b := by
  cases x with
  | error fault => simp
  | ok a => simp

theorem some_of_bind {x : Outcome (Option α)} {f : Option α → Outcome β} {b : β}
    (h : (x >>= f) = Except.ok b) (hnone : f none ≠ Except.ok b) :
    ∃ a, x = Except.ok (some a) ∧ f (some a) = Except.ok b := by
  obtain ⟨found, hx, hf⟩ := bind_eq_ok.1 h
  cases found with
  | none => exact absurd hf hnone
  | some a => exact ⟨a, hx, hf⟩

end Outcome

end Reservoir
