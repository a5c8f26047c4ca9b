import Reservoir.Decimal.Shortest

/-!
Decimal text of numbers: a mantissa below one with an exponent, and plain positional digits.
Both are written from the significant digits and the place of the first one; the former by way of
the usual text, which has one digit before the point.
-/

namespace Reservoir

/-- A decimal by its digits: the first one stands at `10 ^ exponent`. -/
structure Scientific where
  negative : Bool
  digits : List Nat
  exponent : Int
deriving DecidableEq, Repr

inductive Rendered where
  | word (text : String)
  | number (s : Scientific)
deriving DecidableEq, Repr

namespace BinaryFormat

def scientific (format : BinaryFormat) (negative : Bool) (rung : Nat) : Scientific :=
  if rung = 0 then ⟨negative, [0], 0⟩
  else
    let d := format.shortest rung
    let digits := Text.digits d.coefficient
    ⟨negative, digits, d.exponent + digits.length - 1⟩

def render (format : BinaryFormat) : Number → Rendered
  | .nan _ => .word "NaN"
  | .infinite negative => .word (if negative then "-inf" else "inf")
  | .finite negative rung => .number (format.scientific negative rung)

end BinaryFormat

/-- How a number with an exponent is laid out: at least so many mantissa digits, and the
letter before the exponent. -/
structure ExponentStyle where
  decimals : Nat
  marker : Char
deriving DecidableEq, Repr

namespace Scientific

def isZero (s : Scientific) : Bool := s.digits.all (· == 0)

def sign (s : Scientific) : List Char := if s.negative then ['-'] else []

def pointed : List Char → List Char
  | first :: second :: rest => first :: '.' :: second :: rest
  | digits => digits

def exponential (s : Scientific) : List Char :=
  s.sign ++ pointed (s.digits.map Text.digitChar) ++ 'e' :: Text.signedDecimal s.exponent

def exponentDigits (e : Int) : List Char :=
  (if e < 0 then '-' else '+') :: Text.padLeft 2 '0' (Text.decimal e.natAbs)

def positional (s : Scientific) : List Char :=
  let digits := s.digits.map Text.digitChar
  let whole := (s.exponent + 1).toNat
  s.sign ++
    if s.isZero then ['0']
    else if s.exponent < 0 then
      '0' :: '.' :: List.replicate (-(s.exponent + 1)).toNat '0' ++ digits
    else if digits.length ≤ whole then Text.padRight whole '0' digits
    else digits.take whole ++ '.' :: digits.drop whole

end Scientific

namespace Rendered

def exponential : Rendered → List Char
  | .word text => text.toList
  | .number s => s.exponential

def positional : Rendered → List Char
  | .word text => text.toList
  | .number s => s.positional

end Rendered

namespace ExponentStyle

/-- The exponent when the point moves in front of all digits; zero has exponent 0. -/
def movedExponent (digits exponent : List Char) : Int :=
  if digits.all (· == '0') then 0
  else ((Text.readInt32? exponent).map fun e => (e + 1).toInt).getD 0

def splitMinus : List Char → List Char × List Char
  | '-' :: unsigned => (['-'], unsigned)
  | unsigned => ([], unsigned)

/-- Lays out a number with an exponent anew: all digits after the point and filled up with zeros,
the mantissa aligned to the right, the marker and the exponent. A word without an exponent is
aligned to the right in the columns of a number with two exponent digits. -/
def layOut (style : ExponentStyle) (text : List Char) : List Char :=
  match text.dropWhile (· != 'e') with
  | [] => Text.padLeft (style.decimals + 7) ' ' text
  | _ :: exponent =>
    let (sign, significand) := splitMinus (text.takeWhile (· != 'e'))
    let digits := significand.filter Text.isDigit
    let mantissa := sign ++ '0' :: '.' :: Text.padRight style.decimals '0' digits
    Text.padLeft (style.decimals + 3) ' ' mantissa ++
      style.marker :: Scientific.exponentDigits (movedExponent digits exponent)

end ExponentStyle

namespace Rendered

def exponentText (style : ExponentStyle) (r : Rendered) : List Char := style.layOut r.exponential

end Rendered

end Reservoir
