import Reservoir.Decimal.Binary
import Reservoir.Text.Number

/-!
Reading decimal text. A number is an optional sign, digits with an optional point, and an
optional exponent; it becomes the binary number nearest to the exact decimal. Infinity and
NaN are words in either case.
-/

namespace Reservoir

structure Decimal where
  coefficient : Nat
  exponent : Int
deriving DecidableEq, Repr

namespace BinaryFormat

/-- The rung nearest to a decimal. No format reaches `10 ^ depth`, and nothing below
`10 ^ -depth` is nearer to its least magnitude than to zero. -/
def ofDecimal (format : BinaryFormat) (d : Decimal) : Nat :=
  let point := (Text.digits d.coefficient).length + d.exponent
  if d.coefficient = 0 ∨ point < -(format.depth : Int) then 0
  else if point > format.depth then format.infinity
  else format.nearest (d.coefficient * Nat.pow 10 d.exponent.toNat * format.unit)
    (Nat.pow 10 (-d.exponent).toNat)

end BinaryFormat

namespace Text

def isDigit (c : Char) : Bool := '0' ≤ c && c ≤ '9'

def foldCase (c : Char) : Char := c.toLower

def readExponent? : List Char → Option Int
  | '+' :: cs => (readDigits? cs).map Int.ofNat
  | '-' :: cs => (readDigits? cs).map fun n => -(n : Int)
  | cs => (readDigits? cs).map Int.ofNat

def readDecimal? (cs : List Char) : Option Decimal :=
  let whole := cs.takeWhile isDigit
  let rest := cs.dropWhile isDigit
  let (fraction, rest) := match rest with
    | '.' :: rest => (rest.takeWhile isDigit, rest.dropWhile isDigit)
    | _ => ([], rest)
  match readDigits? (whole ++ fraction) with
  | none => none
  | some coefficient =>
    let exponent? := match rest with
      | [] => some 0
      | mark :: rest => if mark == 'e' || mark == 'E' then readExponent? rest else none
    exponent?.map fun exponent => ⟨coefficient, exponent - fraction.length⟩

def splitSign : List Char → Bool × List Char
  | '-' :: cs => (true, cs)
  | '+' :: cs => (false, cs)
  | cs => (false, cs)

end Text

namespace BinaryFormat

/-- The number of this format that a text denotes. -/
def read? (format : BinaryFormat) (cs : List Char) : Option Number :=
  let (negative, magnitude) := Text.splitSign cs
  let word := String.ofList (magnitude.map Text.foldCase)
  if word = "inf" ∨ word = "infinity" then some (.infinite negative)
  else if word = "nan" then some (.nan negative)
  else (Text.readDecimal? magnitude).map fun d =>
    let rung := format.ofDecimal d
    if rung < format.infinity then .finite negative rung else .infinite negative

end BinaryFormat

end Reservoir
