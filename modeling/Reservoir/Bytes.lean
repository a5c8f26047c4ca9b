/-!
Byte strings and the order of the bytes of a word. Words are written little end first on
naturals; big end first is the reverse, so one encoder and one decoder serve both orders.
-/

namespace Reservoir

abbrev Bytes := List UInt8

/-- The greatest length or count that a signed word can hold. -/
def wordLimit : Nat := 0x7fffffff

namespace Bytes

def littleDigits : Nat → Nat → Bytes
  | 0, _ => []
  | width + 1, n => UInt8.ofNat (n % 256) :: littleDigits width (n / 256)

def littleValue : Bytes → Nat
  | [] => 0
  | b :: rest => b.toNat + 256 * littleValue rest

@[simp] theorem length_littleDigits (width n : Nat) : (littleDigits width n).length = width := by
  induction width generalizing n with
  | zero => rfl
  | succ width ih => simp [littleDigits, ih]

theorem littleValue_littleDigits (width n : Nat) :
    littleValue (littleDigits width n) = n % Nat.pow 256 width := by
  induction width generalizing n with
  | zero => simp [littleDigits, littleValue, Nat.mod_one]
  | succ width ih =>
    have hb : (UInt8.ofNat (n % 256)).toNat = n % 256 :=
      UInt8.toNat_ofNat_of_lt' (Nat.mod_lt _ (by decide))
    have hp : Nat.pow 256 (width + 1) = 256 * Nat.pow 256 width := Nat.pow_succ'
    rw [littleDigits, littleValue, ih, hb, hp, Nat.mod_mul]

theorem littleDigits_littleValue (bs : Bytes) :
    littleDigits bs.length (littleValue bs) = bs := by
  induction bs with
  | nil => rfl
  | cons b rest ih =>
    have hb : b.toNat < 256 := b.toNat_lt
    simp only [List.length_cons, littleValue, littleDigits]
    rw [Nat.add_mul_mod_self_left, Nat.mod_eq_of_lt hb, Nat.add_mul_div_left _ _ (by decide),
      Nat.div_eq_of_lt hb, Nat.zero_add, ih, UInt8.ofNat_toNat]

/-- The bytes cut into consecutive pieces of `size`, `count` of them. -/
def slots (size : Nat) : Nat → Bytes → List Bytes
  | 0, _ => []
  | count + 1, bs => bs.take size :: slots size count (bs.drop size)

@[simp] theorem length_slots (size count : Nat) (bs : Bytes) :
    (slots size count bs).length = count := by
  induction count generalizing bs with
  | zero => rfl
  | succ count ih => simp [slots, ih]

/-- Reverses each whole run of `size` bytes; an incomplete run at the end stays as it is. -/
def flipEach (size : Nat) (bs : Bytes) : Bytes :=
  if size < 2 then bs
  else ((slots size (bs.length / size) bs).map List.reverse).flatten
    ++ bs.drop (bs.length / size * size)

end Bytes

inductive ByteOrder where
  | big
  | little
deriving DecidableEq, Repr

namespace ByteOrder

def encode : ByteOrder → Nat → Nat → Bytes
  | .big, width, n => (Bytes.littleDigits width n).reverse
  | .little, width, n => Bytes.littleDigits width n

def decode : ByteOrder → Bytes → Nat
  | .big, bs => Bytes.littleValue bs.reverse
  | .little, bs => Bytes.littleValue bs

@[simp] theorem length_encode (order : ByteOrder) (width n : Nat) :
    (order.encode width n).length = width := by
  cases order <;> simp [encode]

theorem decode_encode (order : ByteOrder) (width n : Nat) :
    order.decode (order.encode width n) = n % Nat.pow 256 width := by
  cases order <;> simp [encode, decode, Bytes.littleValue_littleDigits]

theorem encode_decode (order : ByteOrder) (bs : Bytes) :
    order.encode bs.length (order.decode bs) = bs := by
  cases order
  · have h := Bytes.littleDigits_littleValue bs.reverse
    rw [List.length_reverse] at h
    simp [encode, decode, h]
  · exact Bytes.littleDigits_littleValue bs

def encodeInt32 (order : ByteOrder) (x : Int32) : Bytes :=
  order.encode 4 x.toUInt32.toNat

def decodeInt32 (order : ByteOrder) (bs : Bytes) : Int32 :=
  Int32.ofUInt32 (UInt32.ofNat (order.decode bs))

@[simp] theorem length_encodeInt32 (order : ByteOrder) (x : Int32) :
    (order.encodeInt32 x).length = 4 := by
  simp [encodeInt32]

theorem decodeInt32_encodeInt32 (order : ByteOrder) (x : Int32) :
    order.decodeInt32 (order.encodeInt32 x) = x := by
  simp [encodeInt32, decodeInt32, decode_encode]

/-- Words are kept little end first in memory; bytes of a big-ended stream are swapped. -/
def swaps (order : ByteOrder) : Bool :=
  order == .big

end ByteOrder

end Reservoir
