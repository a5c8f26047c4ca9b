import Reservoir.Record
import Reservoir.Stream.Blocks
import Reservoir.Stream.Lines

/-!
Keywords as framed records. A header record of sixteen bytes holds the padded name, the
count and the type code; the data records after it are full but for the last one.
-/

namespace Reservoir

namespace Header

def toRecord (order : ByteOrder) (h : Header) : Outcome Bytes :=
  if h.count ≤ wordLimit then do
    let name ← Text.padAscii h.name 8
    return name ++ order.encode 4 h.count ++ Text.asciiBytes h.type.code
  else reject (.headerCountTooLarge h.name h.count)

def ofRecord (order : ByteOrder) (bytes : Bytes) : Outcome Header :=
  if bytes.length ≠ 16 then reject (.headerLength bytes.length)
  else
    match Text.decodeUtf8? (bytes.take 8) with
    | none => reject (.headerNameNotAscii (bytes.take 8))
    | some name => do
      let name ← Name.check (String.ofList name)
      let count := (order.decodeInt32 ((bytes.drop 8).take 4)).toInt
      if count < 0 then reject (.headerCountNegative name.val count)
      else
        let type ← typeOf (Text.decodeLenient (bytes.drop 12))
        return ⟨name.val, type, count.toNat⟩

end Header

open Outcome

namespace Records

def checkLength (h : Header) (found expected : Nat) : Outcome Unit :=
  if found = expected then .ok () else reject (.dataRecordLength h.name found expected)

def readBlocks (order : ByteOrder) (h : Header) (left : Nat) (c : Cursor) :
    Outcome (Bytes × Cursor) :=
  if _h : left = 0 then .ok ([], c)
  else do
    let expected := min h.type.blockSize left * h.type.size
    match ← Record.read order c with
    | none => .error (.truncated expected 0)
    | some (front, c) =>
      checkLength h front.length expected
      let (back, c) ← readBlocks order h (left - h.type.blockSize) c
      return (front ++ back, c)
termination_by left
decreasing_by have := h.type.blockSize_pos; omega

def skipBlocks (order : ByteOrder) (streamLength : Nat) (h : Header) (left : Nat)
    (c : Cursor) : Outcome Cursor :=
  if _h : left = 0 then .ok c
  else do
    let expected := min h.type.blockSize left * h.type.size
    match ← Record.skip order streamLength c with
    | none => .error (.truncated expected 0)
    | some (length, c) =>
      checkLength h length expected
      skipBlocks order streamLength h (left - h.type.blockSize) c
termination_by left
decreasing_by have := h.type.blockSize_pos; omega

def stored (h : Header) : Nat := if h.type.size = 0 then 0 else h.count

/-- Numbers change between the order of the stream and that of memory. -/
def reorder (order : ByteOrder) (type : ElementType) (bytes : Bytes) : Bytes :=
  if type.isNumeric && order.swaps then Bytes.flipEach type.size bytes else bytes

def readHeader (order : ByteOrder) (c : Cursor) : Outcome (Option (Header × Cursor)) := do
  match ← Record.read order c with
  | none => return none
  | some (bytes, c) => return some (← Header.ofRecord order bytes, c)

def readPayload (order : ByteOrder) (h : Header) (c : Cursor) : Outcome (Bytes × Cursor) := do
  let (bytes, c) ← readBlocks order h (stored h) c
  return (reorder order h.type bytes, c)

theorem checkLength_eq_ok {h : Header} {found expected : Nat} {done : Unit}
    (hr : checkLength h found expected = .ok done) : found = expected := by
  unfold checkLength at hr
  split at hr
  · assumption
  · cases hr

theorem readBlocks_zero (order : ByteOrder) (h : Header) (c : Cursor) :
    readBlocks order h 0 c = .ok ([], c) := by
  rw [readBlocks, dif_pos rfl]

theorem readBlocks_eq_ok {order : ByteOrder} {h : Header} {left : Nat} {c c' : Cursor}
    {bytes : Bytes} (hleft : left ≠ 0) (hr : readBlocks order h left c = .ok (bytes, c')) :
    ∃ front c₁ back, Record.read order c = .ok (some (front, c₁)) ∧
      front.length = min h.type.blockSize left * h.type.size ∧
      readBlocks order h (left - h.type.blockSize) c₁ = .ok (back, c') ∧
      bytes = front ++ back := by
  rw [readBlocks, dif_neg hleft] at hr
  obtain ⟨⟨front, c₁⟩, hread, hr⟩ := some_of_bind hr (by simp)
  obtain ⟨done, hlength, hr⟩ := bind_eq_ok.1 hr
  obtain ⟨⟨back, c₂⟩, hback, hr⟩ := bind_eq_ok.1 hr
  cases hr
  exact ⟨front, c₁, back, hread, checkLength_eq_ok hlength, hback, rfl⟩

theorem skipBlocks_zero (order : ByteOrder) (streamLength : Nat) (h : Header) (c : Cursor) :
    skipBlocks order streamLength h 0 c = .ok c := by
  rw [skipBlocks, dif_pos rfl]

theorem skipBlocks_eq_ok {order : ByteOrder} {streamLength : Nat} {h : Header} {left : Nat}
    {c c' : Cursor} (hleft : left ≠ 0) (hr : skipBlocks order streamLength h left c = .ok c') :
    ∃ c₁, Record.skip order streamLength c =
        .ok (some (min h.type.blockSize left * h.type.size, c₁)) ∧
      skipBlocks order streamLength h (left - h.type.blockSize) c₁ = .ok c' := by
  rw [skipBlocks, dif_neg hleft] at hr
  obtain ⟨⟨length, c₁⟩, hskip, hr⟩ := some_of_bind hr (by simp)
  obtain ⟨done, hlength, hr⟩ := bind_eq_ok.1 hr
  rw [checkLength_eq_ok hlength] at hskip
  exact ⟨c₁, hskip, hr⟩

theorem readHeader_eq_some {order : ByteOrder} {c c' : Cursor} {h : Header}
    (hr : readHeader order c = .ok (some (h, c'))) :
    ∃ bytes, Record.read order c = .ok (some (bytes, c')) ∧
      Header.ofRecord order bytes = .ok h := by
  obtain ⟨⟨bytes, c₁⟩, hread, hr⟩ := some_of_bind hr (by simp)
  obtain ⟨header, hheader, hr⟩ := bind_eq_ok.1 hr
  cases hr
  exact ⟨bytes, hread, hheader⟩

def frames (order : ByteOrder) : List Bytes → Outcome Bytes
  | [] => .ok []
  | payload :: rest => do return (← Record.frame order payload) ++ (← frames order rest)

/-- Where element `index` lies when the first data record starts at `start`. -/
def elementOffset (start : Nat) (type : ElementType) (index : Nat) : Nat :=
  start + index / type.blockSize * (type.blockSize * type.size + 2 * Record.markerSize)
    + Record.markerSize + index % type.blockSize * type.size

/-- The way from an element to the next one, past the markers between two records. -/
def stride (type : ElementType) (index : Nat) : Nat :=
  elementOffset 0 type (index + 1) - elementOffset 0 type index

end Records

end Reservoir
