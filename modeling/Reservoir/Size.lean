/-!
Sizes as machine words. A product or a sum that no word of 64 bits holds is kept without its upper
part, and whoever asks for that many things gets the number that is left.
-/

namespace Reservoir

def wrap (n : Nat) : Nat := n % UInt64.size

theorem wrap_of_lt {n : Nat} (h : n < UInt64.size) : wrap n = n := Nat.mod_eq_of_lt h

theorem wrap_lt (n : Nat) : wrap n < UInt64.size := Nat.mod_lt _ (by decide)

theorem wrap_le (n : Nat) : wrap n ≤ n := Nat.mod_le ..

theorem wrap_eq_self_iff {n : Nat} : wrap n = n ↔ n < UInt64.size :=
  ⟨fun h => h ▸ wrap_lt n, wrap_of_lt⟩

end Reservoir
