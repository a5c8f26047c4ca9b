import Mathlib.Data.List.Nodup
import Mathlib.Data.Nat.Basic
import Mathlib.Data.Set.Function
import Mathlib.Tactic.Ring
import Reservoir.Grid.Cell

/-!
Ranks of places and of depths. They are numbers in mixed radix, so each is taken once, and the words
that stand for them are the ranks themselves where a word holds them all.
-/

namespace Reservoir

theorem bijOn_digit {α : Type} {s : Set α} {f : α → Nat} {m M : Nat}
    (h : Set.BijOn f s (Set.Iio M)) :
    Set.BijOn (fun x : α × Nat => x.2 + m * f x.1) (s ×ˢ Set.Iio m) (Set.Iio (m * M)) := by
  refine ⟨?_, ?_, ?_⟩
  · rintro ⟨a, digit⟩ ⟨ha, hdigit⟩
    have hrest : f a < M := h.mapsTo ha
    calc digit + m * f a < m + m * f a := Nat.add_lt_add_right hdigit _
      _ = m * (f a + 1) := by rw [Nat.mul_succ, Nat.add_comm]
      _ ≤ m * M := Nat.mul_le_mul_left _ hrest
  · rintro ⟨a, digit⟩ ⟨ha, hdigit⟩ ⟨b, digit'⟩ ⟨hb, hdigit'⟩ heq
    have hlow := congrArg (· % m) heq
    have hhigh := congrArg (· / m) heq
    have hm : 0 < m := Nat.zero_lt_of_lt hdigit
    simp only [Nat.add_mul_mod_self_left, Nat.mod_eq_of_lt hdigit, Nat.mod_eq_of_lt hdigit'] at hlow
    simp only [Nat.add_mul_div_left _ _ hm, Nat.div_eq_of_lt hdigit, Nat.div_eq_of_lt hdigit',
      Nat.zero_add] at hhigh
    exact Prod.ext (h.injOn ha hb hhigh) hlow
  · intro n hn
    have hm : 0 < m := Nat.pos_of_mul_pos_right (Nat.zero_lt_of_lt hn)
    obtain ⟨a, ha, hrest⟩ := h.surjOn (Nat.div_lt_of_lt_mul hn)
    refine ⟨(a, n % m), ⟨ha, Nat.mod_lt n hm⟩, ?_⟩
    simp only [hrest, Nat.mod_add_div]

namespace Dims

variable {d : Dims}

theorem contains_nth {g : Nat} (h : g < d.count) : d.Contains (d.nth g) := by
  have hlayer : 0 < d.nx * d.ny := Nat.pos_of_mul_pos_right (Nat.zero_lt_of_lt h)
  refine ⟨Nat.mod_lt g (Nat.pos_of_mul_pos_right hlayer), ?_, Nat.div_lt_of_lt_mul h⟩
  exact Nat.div_lt_of_lt_mul (Nat.mod_lt g hlayer)

theorem rank_nth (d : Dims) (g : Nat) : d.rank (d.nth g) = g := by
  have hrow : g % (d.nx * d.ny) % d.nx + g % (d.nx * d.ny) / d.nx * d.nx = g % (d.nx * d.ny) :=
    Nat.mod_add_div' ..
  rw [Nat.mod_mul_right_mod] at hrow
  simp only [rank, nth]
  rw [hrow, Nat.mul_assoc, Nat.mod_add_div']

def coordinates (p : Place) : (Nat × Nat) × Nat := ((p.k, p.j), p.i)

theorem bijOn_coordinates (d : Dims) : Set.BijOn coordinates {p | d.Contains p}
    ((Set.Iio d.nz ×ˢ Set.Iio d.ny) ×ˢ Set.Iio d.nx) := by
  refine ⟨?_, ?_, ?_⟩
  · rintro p ⟨hi, hj, hk⟩
    exact ⟨⟨hk, hj⟩, hi⟩
  · rintro ⟨i, j, k⟩ - ⟨i', j', k'⟩ - heq
    simp only [coordinates, Prod.mk.injEq] at heq
    obtain ⟨⟨rfl, rfl⟩, rfl⟩ := heq
    rfl
  · rintro ⟨⟨k, j⟩, i⟩ ⟨⟨hk, hj⟩, hi⟩
    exact ⟨⟨i, j, k⟩, ⟨hi, hj, hk⟩, rfl⟩

theorem bijOn_rank (d : Dims) : Set.BijOn d.rank {p | d.Contains p} (Set.Iio d.count) := by
  have hdigits := (bijOn_digit (m := d.nx) (bijOn_digit (m := d.ny)
    (Set.bijOn_id (Set.Iio d.nz)))).comp d.bijOn_coordinates
  rw [show d.nx * (d.ny * d.nz) = d.count by rw [count]; ring] at hdigits
  refine hdigits.congr fun p _ => ?_
  simp only [Function.comp_apply, coordinates, id, rank]
  ring

theorem rank_lt {p : Place} (h : d.Contains p) : d.rank p < d.count := d.bijOn_rank.mapsTo h

theorem nth_rank {p : Place} (h : d.Contains p) : d.nth (d.rank p) = p :=
  d.bijOn_rank.injOn (contains_nth (rank_lt h)) h (d.rank_nth _)

theorem number_eq (hcount : d.count < 2 ^ 64) {p : Place} (h : d.Contains p) :
    d.number p = d.rank p :=
  wrap_of_lt (Nat.lt_trans (rank_lt h) hcount)

def places (d : Dims) : List Place := (List.range d.count).map d.nth

/-- The digits of the place of a depth, the one that counts most first: of two depths on a pillar,
of two rows and of two columns the number of the corner tells which one it is. -/
def cornerDigits (a : Place × Nat) : ((((Nat × Nat) × Nat) × Nat) × Nat) × Nat :=
  (((((a.1.k, a.2 / 4), a.1.j), a.2 / 2 % 2), a.1.i), a.2 % 2)

theorem bijOn_cornerDigits (d : Dims) :
    Set.BijOn cornerDigits {a | d.Contains a.1 ∧ a.2 < 8}
      (((((Set.Iio d.nz ×ˢ Set.Iio 2) ×ˢ Set.Iio d.ny) ×ˢ Set.Iio 2) ×ˢ Set.Iio d.nx) ×ˢ
        Set.Iio 2) := by
  refine ⟨?_, ?_, ?_⟩
  · rintro ⟨p, c⟩ ⟨⟨hi, hj, hk⟩, hc⟩
    exact ⟨⟨⟨⟨⟨hk, Nat.div_lt_of_lt_mul hc⟩, hj⟩, Nat.mod_lt _ Nat.two_pos⟩, hi⟩,
      Nat.mod_lt _ Nat.two_pos⟩
  · rintro ⟨⟨i, j, k⟩, c⟩ - ⟨⟨i', j', k'⟩, c'⟩ - heq
    simp only [cornerDigits, Prod.mk.injEq] at heq
    obtain ⟨⟨⟨⟨⟨rfl, hface⟩, rfl⟩, hrow⟩, rfl⟩, hcolumn⟩ := heq
    rw [show c = c' by omega]
  · rintro ⟨⟨⟨⟨⟨k, face⟩, j⟩, row⟩, i⟩, column⟩ ⟨⟨⟨⟨⟨hk, hface⟩, hj⟩, hrow⟩, hi⟩, hcolumn⟩
    simp only [Set.mem_Iio] at hface hrow hcolumn
    refine ⟨(⟨i, j, k⟩, face * 4 + row * 2 + column), ⟨⟨hi, hj, hk⟩, by omega⟩, ?_⟩
    simp only [cornerDigits, Prod.mk.injEq, true_and, and_true]
    exact ⟨⟨by omega, by omega⟩, by omega⟩

theorem depthRank_eq (nx ny : Nat) (p : Place) {c : Nat} (hc : c < 8) :
    depthRank nx ny p c =
      c % 2 + 2 * (p.i + nx * (c / 2 % 2 + 2 * (p.j + ny * (c / 4 + 2 * p.k)))) := by
  have hcolumn : (if c % 2 = 1 then 1 else 0) = c % 2 := by split <;> omega
  have hrow : (if c % 4 ≥ 2 then 2 * nx else 0) = 2 * nx * (c / 2 % 2) := by
    split
    · rw [show c / 2 % 2 = 1 by omega, Nat.mul_one]
    · rw [show c / 2 % 2 = 0 by omega, Nat.mul_zero]
  have hface : (if c ≥ 4 then 4 * nx * ny else 0) = 4 * nx * ny * (c / 4) := by
    split
    · rw [show c / 4 = 1 by omega, Nat.mul_one]
    · rw [show c / 4 = 0 by omega, Nat.mul_zero]
  rw [depthRank, hcolumn, hrow, hface]
  ring

theorem depthCount_eq (d : Dims) : d.depthCount = 8 * d.count := by
  rw [depthCount, count, Nat.mul_assoc, Nat.mul_assoc, ← Nat.mul_assoc d.nx]

/-- The corners of all cells find their depths in places of their own, and no place is left over. -/
theorem bijOn_depthRank (d : Dims) :
    Set.BijOn (fun a : Place × Nat => depthRank d.nx d.ny a.1 a.2)
      {a | d.Contains a.1 ∧ a.2 < 8} (Set.Iio d.depthCount) := by
  have hdigits := (bijOn_digit (m := 2) (bijOn_digit (m := d.nx) (bijOn_digit (m := 2)
    (bijOn_digit (m := d.ny) (bijOn_digit (m := 2) (Set.bijOn_id (Set.Iio d.nz))))))).comp
    d.bijOn_cornerDigits
  have hcount : 2 * (d.nx * (2 * (d.ny * (2 * d.nz)))) = d.depthCount := by
    rw [depthCount]
    ring
  rw [hcount] at hdigits
  exact hdigits.congr fun a ha => (depthRank_eq d.nx d.ny a.1 ha.2).symm

theorem depthRank_lt {p : Place} (h : d.Contains p) {c : Nat} (hc : c < 8) :
    depthRank d.nx d.ny p c < d.depthCount :=
  d.bijOn_depthRank.mapsTo (x := (p, c)) ⟨h, hc⟩

theorem pillarRank_add_six_le {p : Place} (h : d.Contains p) (c : Nat) :
    pillarRank d.nx (p.i + c % 4 % 2) (p.j + c % 4 / 2) + 6 ≤ d.pillarCount := by
  have hi : p.i + c % 4 % 2 + 1 ≤ d.nx + 1 := by
    have := h.1
    omega
  have hj : p.j + c % 4 / 2 + 1 ≤ d.ny + 1 := by
    have := h.2.1
    omega
  calc pillarRank d.nx (p.i + c % 4 % 2) (p.j + c % 4 / 2) + 6
      = 6 * ((p.j + c % 4 / 2) * (d.nx + 1) + (p.i + c % 4 % 2 + 1)) := by
        rw [pillarRank]
        ring
    _ ≤ 6 * ((p.j + c % 4 / 2) * (d.nx + 1) + (d.nx + 1)) :=
        Nat.mul_le_mul_left _ (Nat.add_le_add_left hi _)
    _ = 6 * (d.nx + 1) * (p.j + c % 4 / 2 + 1) := by ring
    _ ≤ d.pillarCount := Nat.mul_le_mul_left _ hj

end Dims

end Reservoir
