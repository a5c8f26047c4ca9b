import Reservoir.Stream.Records

/-!
Byte order of whole payloads. Flipping acts element by element, so it may be done before or
after a payload is cut between elements, and doing it twice does nothing.
-/

namespace Reservoir

namespace Bytes

theorem flipEach_of_size_lt {size : Nat} (h : size < 2) (bs : Bytes) : flipEach size bs = bs := by
  simp [flipEach, h]

theorem flipEach_of_length_lt {size : Nat} {bs : Bytes} (h : bs.length < size) :
    flipEach size bs = bs := by
  unfold flipEach
  split
  · rfl
  · simp [Nat.div_eq_of_lt h, slots]

theorem flipEach_of_le {size : Nat} (hs : ¬size < 2) {bs : Bytes} (h : size ≤ bs.length) :
    flipEach size bs = (bs.take size).reverse ++ flipEach size (bs.drop size) := by
  have hdiv : bs.length / size = (bs.length - size) / size + 1 := by
    rw [← Nat.add_div_right _ (by omega), Nat.sub_add_cancel h]
  have hmul : ((bs.length - size) / size + 1) * size = size + (bs.length - size) / size * size := by
    rw [Nat.succ_mul, Nat.add_comm]
  simp only [flipEach, if_neg hs, List.length_drop, hdiv, hmul, slots, List.map_cons,
    List.flatten_cons, List.drop_drop, List.append_assoc]

theorem flipEach_append {size : Nat} {xs : Bytes} (h : size ∣ xs.length) (ys : Bytes) :
    flipEach size (xs ++ ys) = flipEach size xs ++ flipEach size ys := by
  by_cases hs : size < 2
  · simp [flipEach_of_size_lt hs]
  obtain ⟨count, hc⟩ := h
  induction count generalizing xs with
  | zero =>
    have hx : xs = [] := List.eq_nil_of_length_eq_zero (by simpa using hc)
    subst hx
    simp [flipEach_of_length_lt (show ([] : Bytes).length < size by simp; omega)]
  | succ count ih =>
    rw [Nat.mul_succ] at hc
    have hx : size ≤ xs.length := by omega
    have hd : (xs.drop size).length = size * count := by simp; omega
    rw [flipEach_of_le hs hx, flipEach_of_le hs (by simp; omega), List.take_append_of_le_length hx,
      List.drop_append_of_le_length hx, ih hd, List.append_assoc]

theorem flipEach_flipEach (size : Nat) (bs : Bytes) : flipEach size (flipEach size bs) = bs := by
  by_cases hs : size < 2
  · simp [flipEach_of_size_lt hs]
  induction hn : bs.length using Nat.strongRecOn generalizing bs with
  | ind n ih =>
    by_cases hlt : bs.length < size
    · rw [flipEach_of_length_lt hlt, flipEach_of_length_lt hlt]
    · have hle : size ≤ bs.length := Nat.le_of_not_lt hlt
      have hfront : (bs.take size).reverse.length = size := by simp [hle]
      have hback := ih (bs.drop size).length (by simp; omega) _ rfl
      rw [flipEach_of_le hs hle, flipEach_of_le hs (by simp; omega)]
      rw [List.take_append_of_le_length (Nat.le_of_eq hfront.symm),
        List.drop_append_of_le_length (Nat.le_of_eq hfront.symm),
        List.take_of_length_le (Nat.le_of_eq hfront), List.reverse_reverse,
        List.drop_eq_nil_of_le (Nat.le_of_eq hfront), List.nil_append, hback,
        List.take_append_drop]

theorem length_flipEach (size : Nat) (bs : Bytes) : (flipEach size bs).length = bs.length := by
  by_cases hs : size < 2
  · rw [flipEach_of_size_lt hs]
  induction hn : bs.length using Nat.strongRecOn generalizing bs with
  | ind n ih =>
    by_cases hlt : bs.length < size
    · rw [flipEach_of_length_lt hlt, hn]
    · have hback := ih (bs.drop size).length (by simp; omega) _ rfl
      rw [flipEach_of_le hs (Nat.le_of_not_lt hlt), List.length_append, hback]
      simp only [List.length_reverse, List.length_take, List.length_drop]
      omega

end Bytes

namespace Records

theorem length_reorder (order : ByteOrder) (type : ElementType) (bs : Bytes) :
    (reorder order type bs).length = bs.length := by
  unfold reorder
  split
  · exact Bytes.length_flipEach ..
  · rfl

theorem reorder_reorder (order : ByteOrder) (type : ElementType) (bs : Bytes) :
    reorder order type (reorder order type bs) = bs := by
  unfold reorder
  split
  · exact Bytes.flipEach_flipEach ..
  · rfl

theorem reorder_append (order : ByteOrder) (type : ElementType) {xs : Bytes}
    (h : type.size ∣ xs.length) (ys : Bytes) :
    reorder order type (xs ++ ys) = reorder order type xs ++ reorder order type ys := by
  unfold reorder
  split
  · exact Bytes.flipEach_append h ys
  · rfl

theorem flatten_map_reorder (order : ByteOrder) (type : ElementType) {pieces : List Bytes}
    (h : ∀ piece ∈ pieces, type.size ∣ piece.length) :
    (pieces.map (reorder order type)).flatten = reorder order type pieces.flatten := by
  induction pieces with
  | nil => simp [reorder, Bytes.flipEach, Bytes.slots]
  | cons piece pieces ih =>
    simp only [List.mem_cons, forall_eq_or_imp] at h
    rw [List.map_cons, List.flatten_cons, List.flatten_cons, reorder_append order type h.1, ih h.2]

end Records

end Reservoir
