import Reservoir.Fault
import Reservoir.Text.Blank

/-!
The encodings of a stream and how its first bytes reveal them. A binary stream starts with
a framed header record of sixteen bytes, a text stream with a quoted name.
-/

namespace Reservoir

structure Tape where
  stream : Bytes
  place : Nat
deriving DecidableEq, Repr

namespace Tape

def rewind : StateM Tape Unit := modify fun t => { t with place := 0 }

def read (n : Nat) : StateM Tape Bytes := do
  let t ← get
  let bytes := (t.stream.drop t.place).take n
  set { t with place := t.place + bytes.length }
  return bytes

end Tape

inductive Encoding where
  | text
  | binary (order : ByteOrder)
deriving DecidableEq, Repr

namespace Encoding

inductive Form where
  | text
  | binary
deriving DecidableEq, Repr

/-- What a caller already knows of an encoding. -/
structure Hints where
  order : Option ByteOrder
  form : Option Form
deriving DecidableEq, Repr

def Hints.none : Hints := ⟨.none, .none⟩

def headerLength : Nat := 16

def leadLength : Nat := headerLength + 8

def startsWithRecord (order : ByteOrder) (lead : Bytes) : Bool :=
  lead.length == leadLength
    && (order.decodeInt32 (lead.take 4)).toInt == headerLength
    && (order.decodeInt32 (lead.drop (leadLength - 4))).toInt == headerLength

def startsWithQuote (lead : Bytes) : Bool :=
  (lead.dropWhile Text.isBlankByte).head? == some 0x27

def candidates (order : Option ByteOrder) : List ByteOrder :=
  match order with
  | some order => [order]
  | none => [.big, .little]

/-- The encoding of a stream. A form or an order that the caller gives is trusted even where
the first bytes speak against it. -/
def recognize (stream : Bytes) (hints : Hints) : Outcome Encoding :=
  let lead := stream.take leadLength
  let found := (candidates hints.order).find? fun order => startsWithRecord order lead
  match hints.form, found, hints.order with
  | some .text, _, _ => .ok .text
  | some .binary, some order, _ => .ok (.binary order)
  | some .binary, none, some order => .ok (.binary order)
  | some .binary, none, none => reject .unknownEncoding
  | none, some order, _ => .ok (.binary order)
  | none, none, _ =>
    if startsWithQuote lead then .ok .text else reject .unknownEncoding

def probe (hints : Hints) : StateM Tape (Outcome Encoding) := do
  Tape.rewind
  let lead ← Tape.read leadLength
  Tape.rewind
  return recognize lead hints

end Encoding

end Reservoir
