import Mathlib.Algebra.BigOperators.Group.List.Basic
import Reservoir.Proofs.Stream.Dividing

/-!
Lines against records. Both divide the elements of a keyword into parts of bounded sizes. The lines
refine the records: each record is made up of whole lines, so wherever one record ends and another
follows, a line ends too.
-/

namespace Reservoir

variable {limit total n place : Nat} {sizes fine coarse : List Nat}

/-- Sizes above zero and within a limit that add up to a total. -/
structure Partitions (limit total : Nat) (sizes : List Nat) : Prop where
  pos : ∀ size ∈ sizes, 1 ≤ size
  le : ∀ size ∈ sizes, size ≤ limit
  sum : sizes.sum = total

/-- Of parts one after another, some part ends at a place. -/
def EndsAt (sizes : List Nat) (place : Nat) : Prop :=
  ∃ front back, sizes = front ++ back ∧ front ≠ [] ∧ front.sum = place

/-- The fine parts come in runs, each of which makes up one of the coarse parts. -/
def Refines (fine coarse : List Nat) : Prop :=
  ∃ runs : List (List Nat), runs.flatten = fine ∧ runs.map List.sum = coarse

theorem Refines.endsAt (h : Refines fine coarse) (hpos : ∀ size ∈ coarse, 1 ≤ size)
    (hends : EndsAt coarse place) : EndsAt fine place := by
  obtain ⟨runs, rfl, rfl⟩ := h
  obtain ⟨front, back, hsplit, hfront, rfl⟩ := hends
  obtain ⟨frontRuns, backRuns, rfl, rfl, rfl⟩ := List.map_eq_append_iff.1 hsplit
  refine ⟨frontRuns.flatten, backRuns.flatten, List.flatten_append, fun hnil => ?_,
    List.sum_flatten⟩
  obtain ⟨size, rest, hcons⟩ := List.exists_cons_of_ne_nil hfront
  have hsize : 1 ≤ size := hpos size (by rw [hsplit, hcons]; exact List.mem_cons_self)
  have hsum : (frontRuns.map List.sum).sum = 0 := by rw [← List.sum_flatten, hnil, List.sum_nil]
  rw [hcons, List.sum_cons] at hsum
  omega

theorem refines_flatMap {f : Nat → List Nat} (h : ∀ size, (f size).sum = size)
    (coarse : List Nat) : Refines (coarse.flatMap f) coarse := by
  refine ⟨coarse.map f, List.flatMap_def.symm, ?_⟩
  rw [List.map_map]
  exact List.map_id'' h coarse

theorem partSizes_eq_replicate_append (hlimit : 0 < limit) (h : n * limit ≤ total) :
    partSizes limit total = List.replicate n limit ++ partSizes limit (total - n * limit) := by
  induction n generalizing total with
  | zero => rw [Nat.zero_mul, Nat.sub_zero, List.replicate_zero, List.nil_append]
  | succ n ih =>
    rw [Nat.succ_mul] at h ⊢
    rw [partSizes_of_pos hlimit (by omega), Nat.min_eq_left (by omega), ih (by omega),
      List.replicate_succ, List.cons_append, Nat.sub_sub, Nat.add_comm limit]

theorem partSizes_eq (hlimit : 0 < limit) (total : Nat) :
    partSizes limit total = List.replicate (total / limit) limit ++
      if total % limit = 0 then [] else [total % limit] := by
  have hrest : total - total / limit * limit = total % limit := by
    rw [Nat.mul_comm, Nat.mod_eq_sub_mul_div]
  rw [partSizes_eq_replicate_append hlimit (Nat.div_mul_le_self total limit), hrest]
  split
  · next hzero => rw [hzero, partSizes_zero]
  · next hne =>
    have hlt := Nat.mod_lt total hlimit
    rw [partSizes_of_pos hlimit hne, Nat.min_eq_right (Nat.le_of_lt hlt),
      Nat.sub_eq_zero_of_le (Nat.le_of_lt hlt), partSizes_zero]

theorem pos_of_mem_partSizes {size : Nat} (hlimit : 0 < limit) (h : size ∈ partSizes limit total) :
    1 ≤ size := by
  rw [partSizes_eq hlimit, List.mem_append] at h
  rcases h with h | h
  · rw [List.eq_of_mem_replicate h]
    exact hlimit
  · split at h
    · cases h
    · next hne =>
      rw [List.mem_singleton.1 h]
      exact Nat.pos_of_ne_zero hne

theorem partitions_partSizes (hlimit : 0 < limit) (total : Nat) :
    Partitions limit total (partSizes limit total) where
  pos _ := pos_of_mem_partSizes hlimit
  le _ := le_of_mem_partSizes
  sum := sum_partSizes hlimit total

theorem eq_of_mem_dropLast_partSizes {size : Nat} (hlimit : 0 < limit)
    (h : size ∈ (partSizes limit total).dropLast) : size = limit := by
  rw [partSizes_eq hlimit] at h
  split at h
  · rw [List.append_nil] at h
    exact List.eq_of_mem_replicate (List.dropLast_subset _ h)
  · rw [List.dropLast_concat] at h
    exact List.eq_of_mem_replicate h

theorem endsAt_partSizes (hlimit : 0 < limit) (hn : 0 < n) (h : n * limit ≤ total) :
    EndsAt (partSizes limit total) (n * limit) := by
  refine ⟨_, _, partSizes_eq_replicate_append hlimit h, ?_, ?_⟩
  · exact fun hnil => Nat.ne_of_gt hn ((List.replicate_eq_nil_iff limit).1 hnil)
  · exact List.sum_replicate_nat

namespace ElementType

variable {type : ElementType} {count : Nat}

theorem partitions_recordSizes (hsize : type.size ≠ 0) (count : Nat) :
    Partitions type.blockSize count (type.recordSizes count) := by
  rw [recordSizes, if_neg hsize]
  exact partitions_partSizes type.blockSize_pos count

theorem partitions_lineSizes (hsize : type.size ≠ 0) (count : Nat) :
    Partitions type.columns count (type.lineSizes count) := by
  have hparts := fun total => partitions_partSizes type.columns_pos total
  refine ⟨fun size h => ?_, fun size h => ?_, sum_lineSizes hsize count⟩
  · obtain ⟨record, -, h⟩ := List.mem_flatMap.1 h
    exact (hparts record).pos size h
  · obtain ⟨record, -, h⟩ := List.mem_flatMap.1 h
    exact (hparts record).le size h

theorem refines_lineSizes (type : ElementType) (count : Nat) :
    Refines (type.lineSizes count) (type.recordSizes count) :=
  refines_flatMap (sum_partSizes type.columns_pos) _

/-- Elements that take room are divided into lines, none of them empty and none with more elements
than there are columns, and into records, all of them full but for the last one. The lines refine
the records, and one of them ends at every multiple of a full record. Counted without being listed
they are as many. A message has neither lines nor records. -/
theorem lineSizes_partition (type : ElementType) (count : Nat) :
    (type.size ≠ 0 →
      Partitions type.columns count (type.lineSizes count) ∧
      (∀ n, 0 < n → n * type.blockSize < count →
        EndsAt (type.lineSizes count) (n * type.blockSize)) ∧
      Refines (type.lineSizes count) (type.recordSizes count) ∧
      Partitions type.blockSize count (type.recordSizes count) ∧
      ∀ size ∈ (type.recordSizes count).dropLast, size = type.blockSize) ∧
    type.lineCount count = (type.lineSizes count).length ∧
    message.lineSizes count = [] ∧ message.recordSizes count = [] ∧
      message.lineCount count = 0 := by
  refine ⟨fun hsize => ?_, (length_lineSizes type count).symm, rfl, rfl, rfl⟩
  have hrecords := partitions_recordSizes hsize count
  have hrefines := refines_lineSizes type count
  have hblocks : type.recordSizes count = partSizes type.blockSize count := if_neg hsize
  refine ⟨partitions_lineSizes hsize count, fun n hn hlt => ?_, hrefines, hrecords,
    fun size h => ?_⟩
  · have hends := endsAt_partSizes type.blockSize_pos hn (Nat.le_of_lt hlt)
    exact hrefines.endsAt hrecords.pos (hblocks ▸ hends)
  · rw [hblocks] at h
    exact eq_of_mem_dropLast_partSizes type.blockSize_pos h

/-- Six columns do not divide a block of a thousand numbers: its last line has four. -/
theorem lineSizes_partition_twoBlocks :
    int.size ≠ 0 ∧ Partitions 6 1003 (int.lineSizes 1003) ∧ EndsAt (int.lineSizes 1003) 1000 ∧
      int.recordSizes 1003 = [1000, 3] := by
  obtain ⟨hdivided, -⟩ := lineSizes_partition int 1003
  obtain ⟨hlines, hends, -⟩ := hdivided (by decide)
  exact ⟨by decide, hlines, hends 1 (by decide) (by decide), by
    rw [recordSizes, if_neg (by decide), partSizes_eq int.blockSize_pos]; rfl⟩

end ElementType

end Reservoir
