import Mathlib.Algebra.BigOperators.Ring.List
import Mathlib.Algebra.Ring.Nat
import Reservoir.Stream.Lines

/-!
Elements divided into parts. The parts of a list make up the list again, whatever their sizes, as
long as these add up to its length. A writer counts lines record by record, a reader from the
number of full records and the size of the last one; both find the same number.
-/

namespace Reservoir

theorem partSizes_zero (limit : Nat) : partSizes limit 0 = [] := by
  simp [partSizes]

theorem partSizes_of_pos {limit total : Nat} (hl : 0 < limit) (ht : total ≠ 0) :
    partSizes limit total = min limit total :: partSizes limit (total - limit) := by
  rw [partSizes, if_neg (by omega)]

theorem le_of_mem_partSizes {limit total size : Nat} (h : size ∈ partSizes limit total) :
    size ≤ limit := by
  fun_induction partSizes limit total with
  | case1 total hz => simp at h
  | case2 total hz ih =>
    rcases List.mem_cons.1 h with rfl | h
    · exact Nat.min_le_left ..
    · exact ih h

theorem sum_partSizes {limit : Nat} (h : 0 < limit) (total : Nat) :
    (partSizes limit total).sum = total := by
  fun_induction partSizes limit total with
  | case1 total hz =>
    rw [List.sum_nil]
    omega
  | case2 total hz ih =>
    rw [List.sum_cons, ih]
    omega

theorem sum_flatMap_partSizes {limit : Nat} (h : 0 < limit) (sizes : List Nat) :
    (sizes.flatMap (partSizes limit)).sum = sizes.sum := by
  induction sizes with
  | nil => rfl
  | cons size sizes ih =>
    rw [List.flatMap_cons, List.sum_append, sum_partSizes h, ih, List.sum_cons]

namespace ElementType

theorem sum_recordSizes {type : ElementType} (hsize : type.size ≠ 0) (count : Nat) :
    (type.recordSizes count).sum = count := by
  rw [recordSizes, if_neg hsize, sum_partSizes type.blockSize_pos]

theorem sum_map_recordSizes (type : ElementType) (count : Nat) :
    ((type.recordSizes count).map (· * type.size)).sum = count * type.size := by
  by_cases hsize : type.size = 0
  · simp [recordSizes, hsize]
  · have hmul := List.sum_map_mul_right (type.recordSizes count) id type.size
    rw [List.map_id, sum_recordSizes hsize] at hmul
    exact hmul

theorem sum_lineSizes {type : ElementType} (hsize : type.size ≠ 0) (count : Nat) :
    (type.lineSizes count).sum = count := by
  rw [lineSizes, sum_flatMap_partSizes type.columns_pos, sum_recordSizes hsize]

theorem lineCount_of_lt {type : ElementType} (hsize : type.size ≠ 0) {count : Nat}
    (h : count < type.blockSize) : type.lineCount count = partCount type.columns count := by
  rw [lineCount, if_neg hsize, Nat.div_eq_of_lt h, Nat.mod_eq_of_lt h, Nat.zero_mul, Nat.zero_add]

theorem lineCount_of_le {type : ElementType} (hsize : type.size ≠ 0) {count : Nat}
    (h : type.blockSize ≤ count) :
    type.lineCount count =
      partCount type.columns type.blockSize + type.lineCount (count - type.blockSize) := by
  have hpos := type.blockSize_pos
  have hsub : count - type.blockSize + type.blockSize = count := Nat.sub_add_cancel h
  have hdiv : count / type.blockSize = (count - type.blockSize) / type.blockSize + 1 := by
    rw [← Nat.add_div_right _ hpos, hsub]
  have hmod := Nat.add_mod_right (count - type.blockSize) type.blockSize
  rw [hsub] at hmod
  rw [lineCount, lineCount, if_neg hsize, if_neg hsize, hdiv, hmod, Nat.add_mul, Nat.one_mul]
  omega

theorem lineCount_zero (type : ElementType) : type.lineCount 0 = 0 := by
  by_cases hsize : type.size = 0
  · simp [lineCount, hsize]
  · rw [lineCount_of_lt hsize type.blockSize_pos, ← length_partSizes type.columns_pos,
      partSizes_zero, List.length_nil]

theorem length_flatMap_partSizes {type : ElementType} (hsize : type.size ≠ 0) (count : Nat) :
    ((partSizes type.blockSize count).flatMap (partSizes type.columns)).length =
      type.lineCount count := by
  have hpos := type.blockSize_pos
  have hcolumns := type.columns_pos
  induction count using Nat.strongRecOn with
  | ind count ih =>
    by_cases hzero : count = 0
    · rw [hzero, partSizes_zero, lineCount_zero]
      rfl
    · rw [partSizes_of_pos hpos hzero, List.flatMap_cons, List.length_append,
        length_partSizes hcolumns, ih (count - type.blockSize) (by omega)]
      by_cases hle : type.blockSize ≤ count
      · rw [Nat.min_eq_left hle, lineCount_of_le hsize hle]
      · have hrest : count - type.blockSize = 0 := by omega
        rw [Nat.min_eq_right (by omega), hrest, lineCount_zero,
          lineCount_of_lt hsize (by omega), Nat.add_zero]

theorem length_lineSizes (type : ElementType) (count : Nat) :
    (type.lineSizes count).length = type.lineCount count := by
  by_cases hsize : type.size = 0
  · simp [lineSizes, recordSizes, lineCount, hsize]
  · rw [lineSizes, recordSizes, if_neg hsize, length_flatMap_partSizes hsize]

end ElementType

namespace Lines

theorem length_parts {α : Type} (sizes : List Nat) (xs : List α) :
    (parts sizes xs).length = sizes.length := by
  induction sizes generalizing xs with
  | nil => rfl
  | cons size sizes ih => rw [parts, List.length_cons, ih, List.length_cons]

theorem flatten_parts {α : Type} {sizes : List Nat} {xs : List α}
    (h : sizes.sum = xs.length) : (parts sizes xs).flatten = xs := by
  induction sizes generalizing xs with
  | nil =>
    have hnil : xs = [] := List.eq_nil_of_length_eq_zero h.symm
    rw [hnil]
    rfl
  | cons size sizes ih =>
    rw [List.sum_cons] at h
    have hback : sizes.sum = (xs.drop size).length := by
      rw [List.length_drop]
      omega
    rw [parts, List.flatten_cons, ih hback, List.take_append_drop]

theorem map_length_parts {α : Type} {sizes : List Nat} {xs : List α}
    (h : sizes.sum = xs.length) : (parts sizes xs).map List.length = sizes := by
  induction sizes generalizing xs with
  | nil => rfl
  | cons size sizes ih =>
    rw [List.sum_cons] at h
    have hback : sizes.sum = (xs.drop size).length := by
      rw [List.length_drop]
      omega
    rw [parts, List.map_cons, ih hback, List.length_take, Nat.min_eq_left (by omega)]

end Lines

namespace Bytes

theorem length_of_mem_slots {size count : Nat} {bs slot : Bytes} (h : bs.length = count * size)
    (hslot : slot ∈ slots size count bs) : slot.length = size := by
  induction count generalizing bs with
  | zero => cases hslot
  | succ count ih =>
    rw [Nat.succ_mul] at h
    rcases List.mem_cons.1 hslot with rfl | hslot
    · rw [List.length_take]
      omega
    · exact ih (by rw [List.length_drop]; omega) hslot

theorem flatten_slots {size count : Nat} {bs : Bytes} (h : bs.length = count * size) :
    (slots size count bs).flatten = bs := by
  induction count generalizing bs with
  | zero =>
    have hnil : bs = [] := List.eq_nil_of_length_eq_zero (by rw [h, Nat.zero_mul])
    rw [hnil]
    rfl
  | succ count ih =>
    rw [Nat.succ_mul] at h
    rw [slots, List.flatten_cons, ih (by rw [List.length_drop]; omega), List.take_append_drop]

end Bytes

namespace Keyword

variable {k : Keyword}

theorem slots_eq (hk : k.Whole) (h : k.type.size ≠ 0) :
    k.slots = Bytes.slots k.type.size k.count k.payload := by
  rw [slots, if_neg h, hk, Nat.mul_div_cancel _ (Nat.pos_of_ne_zero h)]

theorem length_slots (hk : k.Whole) (h : k.type.size ≠ 0) : k.slots.length = k.count := by
  rw [slots_eq hk h, Bytes.length_slots]

theorem length_slots_le (k : Keyword) : k.slots.length ≤ k.count := by
  unfold slots
  split
  · exact Nat.zero_le _
  · next hsize =>
    rw [Bytes.length_slots]
    refine Nat.div_le_of_le_mul ?_
    rw [Nat.mul_comm]
    exact k.fills.elim Nat.le_of_eq fun hlength => hlength ▸ wrap_le _

theorem flatten_slots (hk : k.Whole) (h : k.type.size ≠ 0) : k.slots.flatten = k.payload := by
  rw [slots_eq hk h, Bytes.flatten_slots hk]

theorem length_of_mem_slots (hk : k.Whole) (h : k.type.size ≠ 0) {slot : Bytes}
    (hslot : slot ∈ k.slots) : slot.length = k.type.size := by
  rw [slots_eq hk h] at hslot
  exact Bytes.length_of_mem_slots hk hslot

def slot (k : Keyword) (index : Nat) : Bytes :=
  (k.payload.drop (index * k.type.size)).take k.type.size

theorem readSlot_eq (hk : k.Whole) {index : Nat} (h : index < k.count) :
    k.readSlot index = .ok (k.slot index) := by
  have hfits : index * k.type.size + k.type.size ≤ k.payload.length := by
    rw [hk, ← Nat.succ_mul]
    exact Nat.mul_le_mul_right _ h
  simp only [readSlot, slotStart, dif_pos hfits]
  rfl

end Keyword

end Reservoir
