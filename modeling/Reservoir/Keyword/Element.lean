import Reservoir.Decimal.Word
import Reservoir.ElementType
import Reservoir.Bytes

/-!
Values that numeric keywords hold, with their slots in memory. Memory is little end first.
-/

namespace Reservoir

class Element (α : Type) where
  type : ElementType
  decode : Bytes → α
  encode : α → Bytes
  length_encode (x : α) : (encode x).length = type.size

namespace Element

instance : Element Int32 where
  type := .int
  decode := ByteOrder.little.decodeInt32
  encode := ByteOrder.little.encodeInt32
  length_encode := ByteOrder.length_encodeInt32 .little

instance : Element Single where
  type := .real
  decode bs := ⟨UInt32.ofNat (ByteOrder.little.decode bs)⟩
  encode x := ByteOrder.little.encode 4 x.bits.toNat
  length_encode _ := ByteOrder.length_encode ..

instance : Element Double where
  type := .double
  decode bs := ⟨UInt64.ofNat (ByteOrder.little.decode bs)⟩
  encode x := ByteOrder.little.encode 8 x.bits.toNat
  length_encode _ := ByteOrder.length_encode ..

instance : Element Bool where
  type := .bool
  decode bs := ByteOrder.little.decodeInt32 bs != 0
  encode x := ByteOrder.little.encodeInt32 (if x then -1 else 0)
  length_encode _ := ByteOrder.length_encodeInt32 ..

theorem decode_encode_int (x : Int32) : decode (encode x) = x :=
  ByteOrder.decodeInt32_encodeInt32 .little x

theorem decode_encode_single (x : Single) : decode (encode x) = x := by
  simp [decode, encode, ByteOrder.decode_encode]

theorem decode_encode_double (x : Double) : decode (encode x) = x := by
  simp [decode, encode, ByteOrder.decode_encode]

theorem decode_encode_bool (x : Bool) : decode (encode x) = x := by
  cases x <;> rfl

end Element

end Reservoir
