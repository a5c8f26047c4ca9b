import Reservoir.Proofs.Stream.Dividing
import Reservoir.Proofs.Stream.Framing
import Reservoir.Stream.Codec

/-!
How records that are read lie in their stream. Each stands there as its payload between two equal
markers, and the data of a keyword are such records one after another, all of them full but for
the last one. So the reader accepts no second spelling of a frame.
-/

namespace Reservoir

open Cursor Outcome

namespace Bytes

theorem littleValue_lt (bs : Bytes) : littleValue bs < Nat.pow 256 bs.length := by
  induction bs with
  | nil => exact Nat.one_pos
  | cons b bs ih =>
    have hb : b.toNat < 256 := b.toNat_lt
    have hp : Nat.pow 256 (b :: bs).length = 256 * Nat.pow 256 bs.length := Nat.pow_succ'
    rw [littleValue, hp]
    omega

end Bytes

namespace ByteOrder

theorem decode_lt (order : ByteOrder) (bs : Bytes) : order.decode bs < Nat.pow 256 bs.length := by
  cases order with
  | little => exact Bytes.littleValue_lt bs
  | big =>
    have h := Bytes.littleValue_lt bs.reverse
    rwa [List.length_reverse] at h

theorem encode_of_decodeInt32 {order : ByteOrder} {bs : Bytes} {n : Nat} (hbs : bs.length = 4)
    (h : (order.decodeInt32 bs).toInt = n) : order.encode 4 n = bs ∧ n ≤ wordLimit := by
  have hlt : order.decode bs < 2 ^ 32 := by
    have hlt := order.decode_lt bs
    rwa [hbs] at hlt
  have hword : (UInt32.ofNat (order.decode bs)).toBitVec.toNat = order.decode bs :=
    UInt32.toNat_ofNat_of_lt' hlt
  have hvalue : (order.decodeInt32 bs).toInt =
      (UInt32.ofNat (order.decode bs)).toBitVec.toInt := rfl
  rw [hvalue, BitVec.toInt_eq_toNat_cond, hword] at h
  have hn : order.decode bs = n ∧ n ≤ wordLimit := by
    unfold wordLimit
    split at h <;> omega
  have hback := order.encode_decode bs
  rw [hbs, hn.1] at hback
  exact ⟨hback, hn.2⟩

end ByteOrder

namespace Record

theorem rest_of_readMarker {order : ByteOrder} {c c' : Cursor} {n : Nat}
    (h : readMarker order c = .ok (some ((n : Int), c'))) :
    c.rest = order.encode markerSize n ++ c'.rest ∧ n ≤ wordLimit := by
  obtain ⟨hfull, rfl⟩ := readMarker_eq_some h
  have hfront : (c.front markerSize).length = markerSize := by
    rw [front, List.length_take, Nat.min_eq_left hfull]
  simp only [readMarker, hfront, Nat.lt_irrefl, if_false] at h
  obtain ⟨hencode, hn⟩ := ByteOrder.encode_of_decodeInt32 (n := n) hfront (by
    injection h with h
    injection h with h
    exact congrArg Prod.fst h)
  refine ⟨?_, hn⟩
  rw [show order.encode markerSize n = c.front markerSize from hencode]
  exact (List.take_append_drop markerSize c.rest).symm

theorem rest_of_read {order : ByteOrder} {c c' : Cursor} {payload : Bytes}
    (h : read order c = .ok (some (payload, c'))) :
    c.rest = framed order payload ++ c'.rest ∧ payload.length ≤ wordLimit := by
  obtain ⟨c₁, hlength, hpayload, htrailer⟩ := read_eq_some h
  obtain ⟨hlead, hfits⟩ := rest_of_readMarker (readLength_eq_some hlength)
  obtain ⟨htrail, -⟩ := rest_of_readMarker (readTrailer_eq_ok htrailer)
  have hmiddle := List.take_append_drop payload.length c₁.rest
  rw [show c₁.rest.take payload.length = payload from hpayload.symm] at hmiddle
  refine ⟨?_, hfits⟩
  rw [show c₁.rest.drop payload.length = _ from htrail] at hmiddle
  rw [hlead, ← hmiddle]
  simp only [framed, List.append_assoc]

end Record

namespace Records

theorem rest_of_readBlocks {order : ByteOrder} {h : Header} {left : Nat} {c c' : Cursor}
    {bytes : Bytes} (hr : readBlocks order h left c = .ok (bytes, c')) :
    ∃ payloads : List Bytes, bytes = payloads.flatten ∧
      payloads.map List.length = (partSizes h.type.blockSize left).map (· * h.type.size) ∧
      c.rest = (payloads.map (Record.framed order)).flatten ++ c'.rest := by
  have hpos := h.type.blockSize_pos
  induction left using Nat.strongRecOn generalizing c bytes with
  | ind left ih =>
    by_cases hleft : left = 0
    · subst hleft
      rw [readBlocks_zero] at hr
      cases hr
      exact ⟨[], rfl, by rw [partSizes_zero]; rfl, rfl⟩
    · obtain ⟨front, c₁, back, hread, hfront, hback, rfl⟩ := readBlocks_eq_ok hleft hr
      obtain ⟨payloads, rfl, hlengths, hrest⟩ := ih _ (by omega) hback
      refine ⟨front :: payloads, rfl, ?_, ?_⟩
      · rw [partSizes_of_pos hpos hleft, List.map_cons, List.map_cons, hfront, hlengths]
      · rw [(Record.rest_of_read hread).1, hrest, List.map_cons, List.flatten_cons,
          List.append_assoc]

end Records

end Reservoir
