import Reservoir.Fault
import Reservoir.Text.Blank
import Reservoir.Text.Utf8

/-!
Keyword names, and text in padded slots. A name is one to eight printable ASCII characters
and ends in no blank, so its padded form determines it.
-/

namespace Reservoir

namespace Text

def byteLength : List Char → Nat
  | [] => 0
  | c :: cs => c.utf8Size + byteLength cs

theorem length_le_byteLength (cs : List Char) : cs.length ≤ byteLength cs := by
  induction cs with
  | nil => exact Nat.le_refl _
  | cons c cs ih =>
    have h := c.utf8Size_pos
    simp only [byteLength, List.length_cons]
    omega

def isAscii (c : Char) : Bool := c.toNat < 0x80

def isPrintableAscii (c : Char) : Bool := 0x20 ≤ c.toNat && c.toNat ≤ 0x7e

def asciiBytes (cs : List Char) : Bytes := cs.map fun c => UInt8.ofNat c.toNat

theorem length_dropTrailing_le (p : Char → Bool) (cs : List Char) :
    (dropTrailing p cs).length ≤ cs.length := by
  have h := (List.dropWhile_sublist p (l := cs.reverse)).length_le
  simpa [dropTrailing] using h

theorem mem_of_mem_dropTrailing {p : Char → Bool} {cs : List Char} {c : Char}
    (h : c ∈ dropTrailing p cs) : c ∈ cs := by
  have h := (List.dropWhile_sublist p (l := cs.reverse)).subset (List.mem_reverse.1 h)
  exact List.mem_reverse.1 h

theorem getLast?_dropTrailing {p : Char → Bool} {cs : List Char} {c : Char}
    (h : (dropTrailing p cs).getLast? = some c) : p c = false := by
  rw [dropTrailing, List.getLast?_reverse] at h
  have hp := List.head?_dropWhile_not p cs.reverse
  rwa [h] at hp

def padAscii (s : String) (width : Nat) : Outcome Bytes :=
  if ¬ s.toList.all isAscii then reject (.textNotAscii s)
  else if width < s.toList.length then reject (.textTooLong s width)
  else .ok (asciiBytes s.toList ++ List.replicate (width - s.toList.length) 0x20)

theorem length_padAscii {s : String} {width : Nat} {bs : Bytes}
    (h : padAscii s width = .ok bs) : bs.length = width := by
  unfold padAscii at h
  split at h
  · simp [reject] at h
  · split at h
    · simp [reject] at h
    · cases h
      simp only [asciiBytes, List.length_append, List.length_map, List.length_replicate]
      omega

def isFiller (c : Char) : Bool := c == ' ' || c == '\x00'

/-- The text of a slot without the blanks and NULs that fill it. -/
def trimSlot (bs : Bytes) : String :=
  String.ofList (dropTrailing isFiller (decodeLenient bs))

end Text

structure IsName (s : String) : Prop where
  length_le : s.toList.length ≤ 8
  printable : ∀ c ∈ s.toList, Text.isPrintableAscii c
  ne_nil : s.toList ≠ []
  last : s.toList.getLast? ≠ some ' '

instance (s : String) : Decidable (IsName s) :=
  decidable_of_iff (s.toList.length ≤ 8 ∧ s.toList.all Text.isPrintableAscii ∧
      s.toList ≠ [] ∧ s.toList.getLast? ≠ some ' ')
    ⟨fun ⟨h₁, h₂, h₃, h₄⟩ => ⟨h₁, List.all_eq_true.1 h₂, h₃, h₄⟩,
      fun ⟨h₁, h₂, h₃, h₄⟩ => ⟨h₁, List.all_eq_true.2 h₂, h₃, h₄⟩⟩

abbrev Name := { s : String // IsName s }

namespace Name

theorem isName_dropTrailing {s : String} (hlen : Text.byteLength s.toList ≤ 8)
    (hprint : s.toList.all Text.isPrintableAscii)
    (hnil : Text.dropTrailing (· == ' ') s.toList ≠ []) :
    IsName (String.ofList (Text.dropTrailing (· == ' ') s.toList)) := by
  have h₁ := Text.length_dropTrailing_le (· == ' ') s.toList
  have h₂ := Text.length_le_byteLength s.toList
  constructor
  · rw [String.toList_ofList]; omega
  · rw [String.toList_ofList]
    exact fun c hc => List.all_eq_true.1 hprint c (Text.mem_of_mem_dropTrailing hc)
  · rwa [String.toList_ofList]
  · rw [String.toList_ofList]
    intro h
    have := Text.getLast?_dropTrailing h
    simp at this

/-- A name from text that may carry blanks at its end. -/
def check (s : String) : Outcome Name :=
  if hlen : Text.byteLength s.toList ≤ 8 then
    if hprint : s.toList.all Text.isPrintableAscii then
      if hnil : Text.dropTrailing (· == ' ') s.toList ≠ [] then
        .ok ⟨_, isName_dropTrailing hlen hprint hnil⟩
      else reject .nameBlank
    else reject (.nameNotPrintable s)
  else reject (.nameTooLong s)

end Name

end Reservoir
