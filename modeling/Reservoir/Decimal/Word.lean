import Reservoir.Decimal.Binary

/-!
Stored floating-point words. A word keeps all its bits, those of a NaN included; arithmetic
is left to `Float`, while comparison and change of width go through rungs.
-/

namespace Reservoir

structure Single where
  bits : UInt32
deriving DecidableEq, Repr

structure Double where
  bits : UInt64
deriving DecidableEq, Repr

namespace BinaryFormat

def signBit (format : BinaryFormat) : Nat :=
  (format.infinity / format.octave + 1) * format.octave

def toNumber (format : BinaryFormat) (bits : Nat) : Number :=
  let negative := format.signBit ≤ bits
  let rung := bits % format.signBit
  if rung < format.infinity then .finite negative rung
  else if rung = format.infinity then .infinite negative
  else .nan negative

/-- The bits of a number; a NaN gets the quiet one without payload. -/
def ofNumber (format : BinaryFormat) : Number → Nat
  | .finite negative rung => if negative then format.signBit + rung else rung
  | .infinite negative =>
    if negative then format.signBit + format.infinity else format.infinity
  | .nan negative =>
    let quiet := format.infinity + format.octave / 2
    if negative then format.signBit + quiet else quiet

def round (format : BinaryFormat) (negative : Bool) (num den : Nat) : Number :=
  let rung := format.nearest num den
  if rung < format.infinity then .finite negative rung else .infinite negative

def convert (source target : BinaryFormat) : Number → Number
  | .finite negative rung =>
    target.round negative (source.height rung * target.unit) source.unit
  | x => x

end BinaryFormat

namespace Single

def toNumber (x : Single) : Number := BinaryFormat.single.toNumber x.bits.toNat

def ofNumber (x : Number) : Single := ⟨UInt32.ofNat (BinaryFormat.single.ofNumber x)⟩

end Single

namespace Double

def toNumber (x : Double) : Number := BinaryFormat.double.toNumber x.bits.toNat

def ofNumber (x : Number) : Double := ⟨UInt64.ofNat (BinaryFormat.double.ofNumber x)⟩

def toFloat (x : Double) : Float := Float.ofBits x.bits

def ofFloat (x : Float) : Double := ⟨x.toBits⟩

/-- The place of a number in the order of magnitudes with sign; a NaN has none. Both zeros
are in one place. -/
def place? (x : Double) : Option Int :=
  match x.toNumber with
  | .nan _ => none
  | .infinite negative =>
    let top : Int := BinaryFormat.double.infinity
    some (if negative then -top else top)
  | .finite negative rung => some (if negative then -(rung : Int) else rung)

def isNaN (x : Double) : Bool := x.place?.isNone

def compareBy (test : Int → Int → Bool) (x y : Double) : Bool :=
  match x.place?, y.place? with
  | some a, some b => test a b
  | _, _ => false

def lt : Double → Double → Bool := compareBy fun a b => a < b

def le : Double → Double → Bool := compareBy fun a b => a ≤ b

def same : Double → Double → Bool := compareBy fun a b => a == b

/-- The nearest whole number, a half away from zero, held within 32 bits; 0 for a NaN. -/
def roundToInt32 (x : Double) : Int :=
  match x.toNumber with
  | .nan _ => 0
  | .infinite negative => if negative then Int32.minValue.toInt else Int32.maxValue.toInt
  | .finite negative rung =>
    let unit := BinaryFormat.double.unit
    let n := (2 * BinaryFormat.double.height rung + unit) / (2 * unit)
    if negative then max (-(n : Int)) Int32.minValue.toInt
    else min (n : Int) Int32.maxValue.toInt

/-- The number times `factor`, rounded to a whole number with ties to even; nothing if it is
not finite. -/
def roundScaled? (x : Double) (factor : Nat) : Option Int :=
  match x.toNumber with
  | .finite negative rung =>
    let n : Int := roundEven (BinaryFormat.double.height rung * factor)
      BinaryFormat.double.unit
    some (if negative then -n else n)
  | _ => none

end Double

def Single.widen (x : Single) : Double :=
  Double.ofNumber (BinaryFormat.single.convert .double x.toNumber)

def Double.narrow (x : Double) : Single :=
  Single.ofNumber (BinaryFormat.double.convert .single x.toNumber)

end Reservoir
