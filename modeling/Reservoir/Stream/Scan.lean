import Reservoir.Stream.Progress

/-!
Whole streams: all keywords one after another, or only the entries that tell what each
keyword is and where it lies.
-/

namespace Reservoir

structure Entry where
  name : String
  type : ElementType
  count : Nat
  offset : Nat
  dataOffset : Nat
  occurrence : Nat
deriving DecidableEq, Repr

def Entry.header (e : Entry) : Header := ⟨e.name, e.type, e.count⟩

namespace Encoding

/-- The keywords of a stream up to the fault that ends it; at its end that is `endOfStream`. -/
def decodeAll (encoding : Encoding) (c : Cursor) : List Keyword × Fault :=
  match _h : encoding.decodeNext c with
  | .error fault => ([], fault)
  | .ok (k, c') =>
    let (keywords, fault) := encoding.decodeAll c'
    (k :: keywords, fault)
termination_by c.rest.length
decreasing_by exact decodeNext_shrinks _h

/-- The entries from a place on; `seen` are the names before it. -/
def scanFrom (encoding : Encoding) (streamLength : Nat) (seen : List String) (c : Cursor) :
    Outcome (List Entry) :=
  match _h : encoding.readHeader c with
  | .error fault => .error fault
  | .ok none => .ok []
  | .ok (some (h, data)) =>
    match _hs : encoding.skipPayload streamLength h data with
    | .error fault => .error fault
    | .ok next => do
      let entry : Entry := ⟨h.name, h.type, h.count, c.position, data.position, seen.count h.name⟩
      return entry :: (← scanFrom encoding streamLength (h.name :: seen) next)
termination_by c.rest.length
decreasing_by
  exact Nat.lt_of_le_of_lt (skipPayload_ahead _hs).length_le (readHeader_shrinks _h)

/-- The entries of a stream that is said to have `streamLength` bytes. -/
def scan (encoding : Encoding) (stream : Bytes) (streamLength : Nat) : Outcome (List Entry) :=
  encoding.scanFrom streamLength [] (.start stream)

end Encoding

end Reservoir
