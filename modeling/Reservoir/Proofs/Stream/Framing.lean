import Reservoir.Proofs.Outcome
import Reservoir.Record

/-!
A framed record is read back as its payload, wherever it stands and whatever follows it.
-/

namespace Reservoir.Record

theorem decodeInt32_encode {n : Nat} (h : n ≤ wordLimit) (order : ByteOrder) :
    (order.decodeInt32 (order.encode markerSize n)).toInt = n := by
  have hn : n < 2147483648 := Nat.lt_succ_of_le h
  have hmod : n % Nat.pow 256 markerSize = n := Nat.mod_eq_of_lt (Nat.lt_trans hn (by decide))
  rw [ByteOrder.decodeInt32, ByteOrder.decode_encode, hmod]
  have htwo : (UInt32.ofNat n).toNat = n :=
    UInt32.toNat_ofNat_of_lt' (Nat.lt_trans hn (by decide))
  rw [← Int32.toInt_toBitVec, BitVec.toInt_eq_toNat_of_lt]
  · exact congrArg Int.ofNat htwo
  · change 2 * (UInt32.ofNat n).toNat < _
    omega

theorem readMarker_encode {n : Nat} (h : n ≤ wordLimit) (order : ByteOrder) (place : Nat)
    (rest : Bytes) :
    readMarker order ⟨place, order.encode markerSize n ++ rest⟩ =
      .ok (some ((n : Int), ⟨place + markerSize, rest⟩)) := by
  have hlen : (order.encode markerSize n).length = markerSize := ByteOrder.length_encode ..
  have hfront : (order.encode markerSize n ++ rest).take markerSize = order.encode markerSize n :=
    List.take_left' hlen
  have hback : (order.encode markerSize n ++ rest).drop markerSize = rest := List.drop_left' hlen
  simp only [readMarker, Cursor.front, Cursor.advance, hfront, hback, hlen, decodeInt32_encode h,
    Nat.lt_irrefl, if_false]
  rfl

theorem readLength_encode {n : Nat} (h : n ≤ wordLimit) (order : ByteOrder) (place : Nat)
    (rest : Bytes) :
    readLength order ⟨place, order.encode markerSize n ++ rest⟩ =
      .ok (some (n, ⟨place + markerSize, rest⟩)) := by
  have hsign : ¬(n : Int) < 0 := by omega
  simp [readLength, readMarker_encode h, hsign]

theorem readTrailer_encode {n : Nat} (h : n ≤ wordLimit) (order : ByteOrder) (place : Nat)
    (rest : Bytes) :
    readTrailer order n ⟨place, order.encode markerSize n ++ rest⟩ =
      .ok ⟨place + markerSize, rest⟩ := by
  simp [readTrailer, readMarker_encode h]

def framed (order : ByteOrder) (payload : Bytes) : Bytes :=
  order.encode markerSize payload.length ++ payload ++ order.encode markerSize payload.length

theorem frame_eq_ok {order : ByteOrder} {payload : Bytes} (h : payload.length ≤ wordLimit) :
    frame order payload = .ok (framed order payload) := by
  simp [frame, framed, h]

theorem read_framed {payload : Bytes} (h : payload.length ≤ wordLimit) (order : ByteOrder)
    (place : Nat) (rest : Bytes) :
    read order ⟨place, framed order payload ++ rest⟩ =
      .ok (some (payload, ⟨place + (framed order payload).length, rest⟩)) := by
  simp only [framed, List.append_assoc, read, readLength_encode h, Outcome.ok_bind, Cursor.front,
    Cursor.advance, List.take_left, List.drop_left, Nat.lt_irrefl, if_false,
    readTrailer_encode h, Outcome.pure_eq, List.length_append, ByteOrder.length_encode,
    Nat.add_assoc]

end Reservoir.Record
