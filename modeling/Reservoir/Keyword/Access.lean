import Reservoir.Keyword.Basic

/-!
Reading and writing the elements of a keyword. Every access first compares the element type
and then the index, and a refused access changes nothing.
-/

namespace Reservoir.Keyword

def mismatch (k : Keyword) (expected : String) : Fault :=
  .typeMismatch k.name.val expected k.type.codeText

def checkType (k : Keyword) (expected : ElementType) : Outcome Unit :=
  if k.type = expected then .ok () else .error (k.mismatch expected.codeText)

def checkString (k : Keyword) : Outcome Unit :=
  if k.type.isString then .ok () else .error (k.mismatch "CHAR")

def checkIndex (k : Keyword) (index : Nat) : Outcome Unit :=
  if index < k.count then .ok () else .error (.outOfRange .element index k.count)

variable {α : Type} [Element α]

def values (k : Keyword) : Outcome (List α) := do
  k.checkType (Element.type α)
  return k.slots.map Element.decode

def get (k : Keyword) (index : Nat) : Outcome α := do
  k.checkType (Element.type α)
  k.checkIndex index
  return Element.decode (← k.readSlot index)

def set (k : Keyword) (index : Nat) (value : α) : Outcome Keyword :=
  if ht : k.type = Element.type α then do
    k.checkIndex index
    k.replaceSlot index (Element.encode value) (by rw [Element.length_encode, ht])
  else .error (k.mismatch (Element.type α).codeText)

def getString (k : Keyword) (index : Nat) : Outcome String := do
  k.checkString
  k.checkIndex index
  return Text.trimSlot (← k.readSlot index)

def setString (k : Keyword) (index : Nat) (value : String) : Outcome Keyword := do
  k.checkString
  k.checkIndex index
  match hs : Text.padAscii value k.type.size with
  | .ok slot => k.replaceSlot index slot (Text.length_padAscii hs)
  | .error fault => .error fault

def strings (k : Keyword) : Outcome (List String) := do
  k.checkString
  return k.slots.map Text.trimSlot

/-- Compares a string element with text, blanks at the end of either aside. -/
def stringEq (k : Keyword) (index : Nat) (text : String) : Outcome Bool := do
  let stored ← k.getString index
  return stored == String.ofList (Text.dropTrailing (· == ' ') text.toList)

def doubles (k : Keyword) : Outcome (List Double) :=
  match k.type with
  | .real => do
    let xs : List Single ← k.values
    return xs.map Single.widen
  | .double => k.values
  | _ => .error (k.mismatch "REAL or DOUB")

def getDouble (k : Keyword) (index : Nat) : Outcome Double :=
  match k.type with
  | .real => do
    let x : Single ← k.get index
    return x.widen
  | .double => k.get index
  | _ => .error (k.mismatch "REAL or DOUB")

def singles (k : Keyword) : Outcome (List Single) :=
  match k.type with
  | .real => k.values
  | .double => do
    let xs : List Double ← k.values
    return xs.map Double.narrow
  | _ => .error (k.mismatch "REAL or DOUB")

def integers (k : Keyword) : Outcome (List Int) := do
  let xs : List Int32 ← k.values
  return xs.map Int32.toInt

end Reservoir.Keyword
