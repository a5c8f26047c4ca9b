import Reservoir.Keyword.Basic
import Reservoir.Stream.Blocks
import Reservoir.Text.Token

/-!
Keywords as lines of text. A header line holds the quoted name, the count and the quoted
type code; the data lines after it hold as many elements as the type has columns. Strings
are read by the width of their slots, so they may contain quotes.
-/

namespace Reservoir

namespace Header

def line (h : Header) : List Char :=
  ' ' :: '\'' :: Text.padRight 8 ' ' h.name.toList ++ '\'' :: ' '
    :: Text.padLeft 11 ' ' (Text.decimal h.count) ++ ' ' :: '\''
    :: Text.padRight 4 ' ' h.type.code ++ ['\'']

def typeOf (code : List Char) : Outcome ElementType :=
  match ElementType.ofCode? code with
  | some type => .ok type
  | none => reject (.unknownTypeCode (String.ofList code))

def ofLine (line : List Char) : Outcome Header := do
  match ← Text.tokenize line with
  | [.quoted name, .bare count, .quoted code] =>
    let name ← Name.check (String.ofList name)
    match Text.readCount? count with
    | none => reject (.headerCount (String.ofList count) name.val)
    | some count =>
      let type ← typeOf (Text.trimEnd code)
      return ⟨name.val, type, count⟩
  | _ => reject (.headerLine (String.ofList (Text.trimEnd line)))

end Header

namespace Lines

/-- Nine digits distinguish all numbers of 32 bits. -/
def realStyle : ExponentStyle := ⟨9, 'E'⟩

def doubleStyle : ExponentStyle := ⟨17, 'D'⟩

def realText (style : ExponentStyle) (x : Single) : List Char :=
  (BinaryFormat.single.render x.toNumber).exponentText style

def doubleText (style : ExponentStyle) (x : Double) : List Char :=
  (BinaryFormat.double.render x.toNumber).exponentText style

def elementText (type : ElementType) (slot : Bytes) : List Char :=
  match type with
  | .int =>
    ' ' :: Text.padLeft 11 ' ' (Text.signedDecimal (Element.decode slot : Int32).toInt)
  | .real => ' ' :: ' ' :: realText realStyle (Element.decode slot)
  | .double => ' ' :: ' ' :: doubleText doubleStyle (Element.decode slot)
  | .bool => [' ', ' ', if (Element.decode slot : Bool) then 'T' else 'F']
  | .char | .fixed _ => ' ' :: '\'' :: Text.decodeLenient slot ++ ['\'']
  | .message => []

def parts {α : Type} : List Nat → List α → List (List α)
  | [], _ => []
  | size :: sizes, xs => xs.take size :: parts sizes (xs.drop size)

def dataLines (k : Keyword) : List (List Char) :=
  (parts (k.type.lineSizes k.count) k.slots).map fun slots =>
    slots.flatMap (elementText k.type)

def encode (k : Keyword) : Bytes :=
  ((k.header.line :: dataLines k).map fun line => Text.encodeUtf8 line ++ [0xa]).flatten

def valueSlot? (type : ElementType) (text : List Char) : Option Bytes :=
  match type with
  | .int => (Text.readInt32? text).map Element.encode
  | .real => (BinaryFormat.single.read? text).map fun x => Element.encode (Single.ofNumber x)
  | .double => (BinaryFormat.double.read? text).map fun x => Element.encode (Double.ofNumber x)
  | .bool =>
    if text = ['T'] ∨ text = ['t'] then some (Element.encode true)
    else if text = ['F'] ∨ text = ['f'] then some (Element.encode false)
    else none
  | .char | .fixed _ | .message => none

def exponentMark (c : Char) : Char := if c == 'D' || c == 'd' then 'E' else c

def tokenSlot (h : Header) (token : Text.Token) : Outcome Bytes :=
  let bad (text : List Char) : Outcome Bytes :=
    reject (.badValue h.type (String.ofList text) h.name)
  match token with
  | .quoted text => bad text
  | .bare text =>
    let text := match h.type with
      | .real | .double => text.map exponentMark
      | _ => text
    match valueSlot? h.type text with
    | some slot => .ok slot
    | none => bad text

/-- Reads the values of a line after `found` earlier ones. Values past the declared count are
counted and not read. -/
def readTokens (h : Header) : Nat → List Text.Token → Outcome (Nat × Bytes)
  | found, [] => .ok (found, [])
  | found, token :: tokens => do
    let slot ← if found < h.count then tokenSlot h token else pure []
    let (total, bytes) ← readTokens h (found + 1) tokens
    return (total, slot ++ bytes)

def readValues (h : Header) (found : Nat) (line : List Char) : Outcome (Nat × Bytes) := do
  readTokens h found (← Text.tokenize line)

def splitSlot? (width : Nat) (text : List Char) : Option (List Char × List Char) :=
  match text with
  | '\'' :: rest =>
    match Text.splitAtByte? width rest with
    | some (slot, '\'' :: after) => some (slot, after)
    | _ => none
  | _ => none

/-- Reads the quoted slots of a line; `fuel` is no less than its length. -/
def readSlots (h : Header) (line : List Char) : Nat → Nat → List Char → Outcome (Nat × Bytes)
  | 0, found, _ => .ok (found, [])
  | fuel + 1, found, rest =>
    match rest.dropWhile (· == ' ') with
    | [] => .ok (found, [])
    | rest =>
      match splitSlot? h.type.size rest with
      | none => reject (.badSlot h.type.size h.name (String.ofList line))
      | some (text, after) => do
        let slot ← if found < h.count then Text.padAscii (String.ofList text) h.type.size
          else pure []
        let (total, bytes) ← readSlots h line fuel (found + 1) after
        return (total, slot ++ bytes)

def readStrings (h : Header) (found : Nat) (line : List Char) : Outcome (Nat × Bytes) :=
  readSlots h line line.length found (Text.dropTrailing Text.isLineEnd line)

/-- Reads line after line, each with the count of the elements before it. -/
def readLines (read : Nat → List Char → Outcome (Nat × Bytes)) :
    Nat → List (List Char) → Outcome (Nat × Bytes)
  | found, [] => .ok (found, [])
  | found, line :: lines => do
    let (found, front) ← read found line
    let (total, back) ← readLines read found lines
    return (total, front ++ back)

def payload (h : Header) (lines : List (List Char)) : Outcome Bytes := do
  let (found, bytes) ←
    readLines (if h.type.isString then readStrings h else readValues h) 0 lines
  if h.type.size = 0 ∨ found = h.count then return bytes
  else .error (.sizeMismatch ("formatted data of '" ++ h.name ++ "'") h.count found)

end Lines

end Reservoir
