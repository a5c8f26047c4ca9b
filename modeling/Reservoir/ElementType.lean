import Reservoir.Text.Number

/-!
Element types of a keyword: four numeric types, padded strings of eight or another fixed
number of characters, and messages without elements. The type alone fixes how many elements
share a record or a line of text.
-/

namespace Reservoir

abbrev Width := { n : Nat // 1 ≤ n ∧ n ≤ 999 }

inductive ElementType where
  | int
  | real
  | double
  | bool
  | char
  | message
  | fixed (width : Width)
deriving DecidableEq, Repr

namespace ElementType

def size : ElementType → Nat
  | int | real | bool => 4
  | double | char => 8
  | message => 0
  | fixed width => width.val

def isNumeric : ElementType → Bool
  | int | real | double | bool => true
  | char | message | fixed _ => false

def isString : ElementType → Bool
  | char | fixed _ => true
  | int | real | double | bool | message => false

theorem size_ne_zero_of_isNumeric {type : ElementType} (h : type.isNumeric) : type.size ≠ 0 := by
  cases type <;> simp [isNumeric, size] at *

theorem size_ne_zero_of_isString {type : ElementType} (h : type.isString) : type.size ≠ 0 := by
  cases type with
  | char => exact Nat.succ_ne_zero 7
  | fixed width => exact Nat.ne_of_gt width.property.1
  | _ => cases h

theorem size_le (type : ElementType) : type.size ≤ 999 := by
  cases type with
  | fixed width => exact width.property.2
  | _ => decide

/-- The most elements in one record of a binary stream. -/
def blockSize (type : ElementType) : Nat :=
  if type.isNumeric then 1000 else 105

/-- The most elements on one line of text. -/
def columns : ElementType → Nat
  | int => 6
  | real => 4
  | double => 3
  | bool => 25
  | char | fixed _ => 7
  | message => 1

theorem blockSize_pos (type : ElementType) : 0 < type.blockSize := by
  unfold blockSize; split <;> decide

theorem columns_pos (type : ElementType) : 0 < type.columns := by
  cases type <;> simp [columns]

def code : ElementType → List Char
  | int => ['I', 'N', 'T', 'E']
  | real => ['R', 'E', 'A', 'L']
  | double => ['D', 'O', 'U', 'B']
  | bool => ['L', 'O', 'G', 'I']
  | char => ['C', 'H', 'A', 'R']
  | message => ['M', 'E', 'S', 'S']
  | fixed width => 'C' :: Text.padLeft 3 '0' (Text.decimal width.val)

def codeText (type : ElementType) : String := String.ofList type.code

def ofCode? : List Char → Option ElementType
  | ['I', 'N', 'T', 'E'] => some int
  | ['R', 'E', 'A', 'L'] => some real
  | ['D', 'O', 'U', 'B'] => some double
  | ['L', 'O', 'G', 'I'] => some bool
  | ['C', 'H', 'A', 'R'] => some char
  | ['M', 'E', 'S', 'S'] => some message
  | ['C', a, b, c] => do
    let width ← Text.readDigits? [a, b, c]
    if h : 1 ≤ width ∧ width ≤ 999 then some (fixed ⟨width, h⟩) else none
  | _ => none

end ElementType

end Reservoir
