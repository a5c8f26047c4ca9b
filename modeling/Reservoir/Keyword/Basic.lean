import Reservoir.Keyword.Element
import Reservoir.Name
import Reservoir.Size

/-!
Keywords: named blocks of equally wide slots. Numbers are kept little end first and strings as
their padded slots. The length of a payload is compared as a word: it is that of the elements
unless these are more bytes than a word counts.
-/

namespace Reservoir

structure Header where
  name : String
  type : ElementType
  count : Nat
deriving DecidableEq, Repr

/-- The length of a payload is that of the elements, or what a word keeps of it. -/
def Fills (length count size : Nat) : Prop :=
  length = count * size ∨ length = wrap (count * size)

instance (length count size : Nat) : Decidable (Fills length count size) :=
  inferInstanceAs (Decidable (_ ∨ _))

structure Keyword where
  name : Name
  type : ElementType
  count : Nat
  payload : Bytes
  fills : Fills payload.length count type.size
deriving DecidableEq

theorem Bytes.length_flatten_of_forall {pieces : List Bytes} {size : Nat}
    (h : ∀ piece ∈ pieces, piece.length = size) :
    pieces.flatten.length = pieces.length * size := by
  induction pieces with
  | nil => simp
  | cons piece pieces ih =>
    simp only [List.mem_cons, forall_eq_or_imp] at h
    simp [h.1, ih h.2, Nat.succ_mul, Nat.add_comm]

namespace Keyword

def header (k : Keyword) : Header := ⟨k.name.val, k.type, k.count⟩

def Whole (k : Keyword) : Prop := k.payload.length = k.count * k.type.size

instance (k : Keyword) : Decidable k.Whole := inferInstanceAs (Decidable (_ = _))

theorem whole_of_lt {k : Keyword} (h : k.count * k.type.size < UInt64.size) : k.Whole :=
  k.fills.elim id fun hlength => hlength.trans (wrap_of_lt h)

theorem whole_of_count_le {k : Keyword} (h : k.count ≤ wordLimit) : k.Whole := by
  refine whole_of_lt (Nat.lt_of_le_of_lt (Nat.mul_le_mul h k.type.size_le) ?_)
  decide

/-- A keyword of zeros, or of blanks if it holds strings. -/
def blank (name : String) (type : ElementType) (count : Nat) : Outcome Keyword := do
  let name ← Name.check name
  let fill : UInt8 := if type.isString then 0x20 else 0
  return ⟨name, type, count, List.replicate (wrap (count * type.size)) fill,
    .inr List.length_replicate⟩

def ofPayload (name : String) (type : ElementType) (count : Nat) (payload : Bytes) :
    Outcome Keyword := do
  let name ← Name.check name
  if h : Fills payload.length count type.size then
    return ⟨name, type, count, payload, h⟩
  else
    .error (.sizeMismatch ("payload of keyword '" ++ name.val ++ "'")
      (wrap (count * type.size)) payload.length)

theorem length_of_mem_encoded {α : Type} [Element α] {values : List α} {piece : Bytes}
    (h : piece ∈ values.map Element.encode) : piece.length = (Element.type α).size := by
  obtain ⟨x, -, rfl⟩ := List.mem_map.1 h
  exact Element.length_encode x

theorem length_encoded {α : Type} [Element α] (values : List α) :
    (values.map Element.encode).flatten.length = values.length * (Element.type α).size := by
  rw [Bytes.length_flatten_of_forall fun piece => length_of_mem_encoded, List.length_map]

theorem fills_encoded {α : Type} [Element α] (values : List α) :
    Fills (values.map Element.encode).flatten.length values.length (Element.type α).size :=
  .inl (length_encoded values)

def ofValues {α : Type} [Element α] (name : String) (values : List α) : Outcome Keyword := do
  let name ← Name.check name
  return ⟨name, Element.type α, values.length, (values.map Element.encode).flatten,
    fills_encoded values⟩

def stringSlots (width : Nat) :
    List String → Outcome { bs : List Bytes // ∀ b ∈ bs, b.length = width }
  | [] => .ok ⟨[], by simp⟩
  | s :: rest =>
    match h : Text.padAscii s width with
    | .error fault => .error fault
    | .ok slot => do
      let slots ← stringSlots width rest
      return ⟨slot :: slots.val, by
        simp only [List.mem_cons, forall_eq_or_imp]
        exact ⟨Text.length_padAscii h, slots.property⟩⟩

def ofStringSlots (name : String) (type : ElementType) (values : List String) :
    Outcome Keyword := do
  let name ← Name.check name
  let slots ← stringSlots type.size values
  return ⟨name, type, slots.val.length, slots.val.flatten,
    .inl (Bytes.length_flatten_of_forall slots.property)⟩

def ofStrings (name : String) (values : List String) : Outcome Keyword :=
  ofStringSlots name .char values

def ofFixedStrings (name : String) (width : Nat) (values : List String) : Outcome Keyword :=
  if h : 1 ≤ width ∧ width ≤ 999 then ofStringSlots name (.fixed ⟨width, h⟩) values
  else reject (.widthOutOfRange width)

def rename (k : Keyword) (name : String) : Outcome Keyword := do
  let name ← Name.check name
  return { k with name }

/-- The slots of the payload, in order. The elements of a message take no room and have none,
however many are declared. -/
def slots (k : Keyword) : List Bytes :=
  if k.type.size = 0 then []
  else Bytes.slots k.type.size (k.payload.length / k.type.size) k.payload

/-- Where a slot starts. The place is a word too, and a slot that is not within the payload stops
the program. -/
def slotStart (k : Keyword) (index : Nat) :
    Outcome { start : Nat // start + k.type.size ≤ k.payload.length } :=
  let start := index * k.type.size
  if h : start + k.type.size ≤ k.payload.length then .ok ⟨start, h⟩
  else if h : wrap start + k.type.size ≤ k.payload.length then .ok ⟨wrap start, h⟩
  else .error .crash

def readSlot (k : Keyword) (index : Nat) : Outcome Bytes := do
  let start ← k.slotStart index
  return (k.payload.drop start.val).take k.type.size

def replaceSlot (k : Keyword) (index : Nat) (bytes : Bytes) (hb : bytes.length = k.type.size) :
    Outcome Keyword := do
  let start ← k.slotStart index
  return { k with
    payload := k.payload.take start.val ++ bytes ++ k.payload.drop (start.val + k.type.size)
    fills := by
      have hstart := start.property
      have hlength : (k.payload.take start.val ++ bytes
          ++ k.payload.drop (start.val + k.type.size)).length = k.payload.length := by
        simp only [List.length_append, List.length_take, List.length_drop]
        omega
      exact hlength.symm ▸ k.fills }

end Keyword

end Reservoir
