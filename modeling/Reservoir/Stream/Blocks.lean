import Reservoir.ElementType

/-!
How the elements of a keyword are divided: into records of a binary stream, and within the
same bounds into lines of text. Messages have neither records nor lines.
-/

namespace Reservoir

/-- The sizes of the parts of `total` when each but the last is as large as `limit`. -/
def partSizes (limit total : Nat) : List Nat :=
  if limit = 0 ∨ total = 0 then []
  else min limit total :: partSizes limit (total - limit)
termination_by total

def partCount (limit total : Nat) : Nat := (total + (limit - 1)) / limit

theorem length_partSizes {limit : Nat} (h : 0 < limit) (total : Nat) :
    (partSizes limit total).length = partCount limit total := by
  fun_induction partSizes limit total with
  | case1 total hz =>
    have : total = 0 := by omega
    subst this
    simp only [List.length_nil, partCount, Nat.zero_add]
    exact (Nat.div_eq_of_lt (by omega)).symm
  | case2 total hz ih =>
    rw [List.length_cons, ih, partCount, partCount]
    by_cases hle : limit ≤ total
    · rw [show total + (limit - 1) = total - limit + (limit - 1) + limit by omega,
        Nat.add_div_right _ h]
    · rw [show total - limit = 0 by omega, Nat.div_eq_of_lt (show 0 + (limit - 1) < limit by omega)]
      exact (Nat.div_eq_of_lt_le (by omega) (by omega)).symm

namespace ElementType

def recordSizes (type : ElementType) (count : Nat) : List Nat :=
  if type.size = 0 then [] else partSizes type.blockSize count

/-- Elements on each line; a record boundary is also a line boundary. -/
def lineSizes (type : ElementType) (count : Nat) : List Nat :=
  (type.recordSizes count).flatMap (partSizes type.columns)

def lineCount (type : ElementType) (count : Nat) : Nat :=
  if type.size = 0 then 0
  else count / type.blockSize * partCount type.columns type.blockSize
    + partCount type.columns (count % type.blockSize)

end ElementType

end Reservoir
