import Reservoir.Catalog
import Reservoir.Keyword.Access

/-!
Keyword files opened for reading. Opening settles the encoding and the length, scanning
makes the catalog, and loading goes back to the place of an entry. What is stored there may
have changed since; then it must still decode to the keyword of the entry, or it is stale.
-/

namespace Reservoir

structure KeywordFile where
  path : String
  encoding : Encoding
  length : Nat
  catalog : Catalog
deriving DecidableEq, Repr

namespace KeywordFile

def checkStart (encoding : Encoding) (stream : Bytes) : Outcome Unit :=
  match encoding.readHeader (.start stream) with
  | .ok (some _) => .ok ()
  | .ok none => reject .noKeyword
  | .error fault => .error (if fault.isInput then fault else .badStart fault)

def ofStream (path : String) (stream : Bytes) (hints : Encoding.Hints) :
    Outcome KeywordFile := do
  let encoding ← Encoding.recognize stream hints
  checkStart encoding stream
  return ⟨path, encoding, stream.length, .empty⟩

/-- Makes the catalog anew; the stream is taken to be as long as when it was opened. -/
def scan (file : KeywordFile) (stream : Bytes) : Outcome KeywordFile := do
  let entries ← file.encoding.scan stream file.length
  return { file with catalog := ⟨entries⟩ }

def staleBy (entry : Entry) (fault : Fault) : Fault :=
  if fault.isInput then fault else .stale entry.name entry.offset fault

/-- The keyword of an entry, when the cursor stands at its offset. -/
def loadAt (file : KeywordFile) (entry : Entry) (c : Cursor) : Outcome (Keyword × Cursor) :=
  match file.encoding.readHeader c with
  | .error fault => .error (staleBy entry fault)
  | .ok none => reject (.staleEnd entry.name entry.offset)
  | .ok (some (h, data)) =>
    if h ≠ entry.header then reject (.staleFound entry.name entry.offset h.name)
    else
      match file.encoding.readPayload h data with
      | .error fault => .error (staleBy entry fault)
      | .ok (payload, next) => do
        return (← Keyword.ofPayload h.name h.type h.count payload, next)

def load (file : KeywordFile) (stream : Bytes) (entry : Entry) : Outcome Keyword := do
  return (← file.loadAt entry (.seek stream entry.offset)).1

def loadFrom (file : KeywordFile) (stream : Bytes) (catalog : Catalog) (name : String)
    (occurrence : Nat) : Outcome Keyword :=
  match catalog.get? name occurrence with
  | some entry => file.load stream entry
  | none => reject (.missingKeyword name occurrence)

def loadNamed (file : KeywordFile) (stream : Bytes) (name : String) (occurrence : Nat) :
    Outcome Keyword :=
  file.loadFrom stream file.catalog name occurrence

def loadOptional (file : KeywordFile) (stream : Bytes) (catalog : Catalog) (name : String) :
    Outcome (Option Keyword) :=
  match catalog.get? name 0 with
  | some entry => (file.load stream entry).map some
  | none => .ok none

def loadAll (file : KeywordFile) (stream : Bytes) (entries : List Entry) :
    List (Outcome Keyword) :=
  entries.map (file.load stream)

variable {α : Type} [Element α]

def readFront (order : ByteOrder) (type : ElementType) (bytes : Bytes) : Outcome α :=
  let slot := bytes.take type.size
  if slot.length < type.size then .error (.truncated type.size slot.length)
  else .ok (Element.decode (if order.swaps then slot.reverse else slot))

def readStored (order : ByteOrder) (type : ElementType) :
    Nat → Nat → Bytes → Outcome (List α)
  | 0, _, _ => .ok []
  | left + 1, index, bytes => do
    let x ← readFront order type bytes
    let xs ← readStored order type left (index + 1) (bytes.drop (Records.stride type index))
    return x :: xs

/-- The elements from `start` up to `stop`, without the rest of the keyword where the
encoding allows it. -/
def readRange (file : KeywordFile) (stream : Bytes) (entry : Entry) (start stop : Nat) :
    Outcome (List α) :=
  if entry.type ≠ Element.type α then
    .error (.typeMismatch entry.name (Element.type α).codeText entry.type.codeText)
  else if start > stop ∨ stop > entry.count then
    .error (.outOfRange .element (max start stop) entry.count)
  else
    match file.encoding with
    | .text => do
      let keyword ← file.load stream entry
      let values ← keyword.values
      return (values.drop start).take (stop - start)
    | .binary order =>
      readStored order entry.type (stop - start) start
        (stream.drop (Records.elementOffset entry.dataOffset entry.type start))

def readElement (file : KeywordFile) (stream : Bytes) (entry : Entry) (index : Nat) :
    Outcome α := do
  match ← file.readRange stream entry index (index + 1) with
  | x :: _ => return x
  | [] => .error (.outOfRange .element index entry.count)

end KeywordFile

end Reservoir
