import Reservoir.Proofs.Outcome
import Reservoir.Stream.Lines

/-!
The slots on lines of text. What is read from the data lines of a keyword is one slot after the
other, as many as the keyword declares, and values past that count give none.
-/

namespace Reservoir

open Outcome

namespace Text

theorem append_of_splitAtByte? {width : Nat} {cs front back : List Char}
    (h : splitAtByte? width cs = some (front, back)) : cs = front ++ back := by
  fun_induction splitAtByte? width cs generalizing front with
  | case1 cs =>
    cases h
    rfl
  | case2 => cases h
  | case3 width c cs hfits ih =>
    obtain ⟨⟨front', back'⟩, hsplit, heq⟩ := Option.map_eq_some_iff.1 h
    cases heq
    rw [ih hsplit, List.cons_append]
  | case4 => cases h

end Text

namespace Lines

variable {h : Header} {P : Bytes → Prop}

/-- What lines give behind `found` earlier values: their new total, and a slot for each value that
is declared. -/
def Gives (h : Header) (P : Bytes → Prop) (found : Nat) (given : Nat × Bytes) : Prop :=
  ∃ slots : List Bytes, given.2 = slots.flatten ∧
    min found h.count + slots.length = min given.1 h.count ∧ ∀ slot ∈ slots, P slot

theorem gives_nothing (found : Nat) : Gives h P found (found, []) := ⟨[], rfl, rfl, by simp⟩

theorem Gives.cons {found total : Nat} {slot bytes : Bytes}
    (hrest : Gives h P (found + 1) (total, bytes)) (hfound : found < h.count) (hslot : P slot) :
    Gives h P found (total, slot ++ bytes) := by
  obtain ⟨slots, rfl, hlength, hall⟩ := hrest
  refine ⟨slot :: slots, rfl, ?_, List.forall_mem_cons.2 ⟨hslot, hall⟩⟩
  rw [List.length_cons, ← hlength]
  omega

theorem Gives.past {found total : Nat} {bytes : Bytes}
    (hrest : Gives h P (found + 1) (total, bytes)) (hfound : ¬found < h.count) :
    Gives h P found (total, bytes) := by
  obtain ⟨slots, rfl, hlength, hall⟩ := hrest
  refine ⟨slots, rfl, ?_, hall⟩
  rw [← hlength]
  omega

theorem Gives.append {found middle total : Nat} {front back : Bytes}
    (hfront : Gives h P found (middle, front)) (hback : Gives h P middle (total, back)) :
    Gives h P found (total, front ++ back) := by
  obtain ⟨slots, rfl, hlength, hall⟩ := hfront
  obtain ⟨slots', rfl, hlength', hall'⟩ := hback
  refine ⟨slots ++ slots', List.flatten_append.symm, ?_, List.forall_mem_append.2 ⟨hall, hall'⟩⟩
  rw [List.length_append, ← Nat.add_assoc, hlength, hlength']

theorem readTokens_gives (hslot : ∀ token slot, tokenSlot h token = .ok slot → P slot)
    {found : Nat} {tokens : List Text.Token} {given : Nat × Bytes}
    (hr : readTokens h found tokens = .ok given) : Gives h P found given := by
  induction tokens generalizing found given with
  | nil =>
    cases hr
    exact gives_nothing found
  | cons token tokens ih =>
    unfold readTokens at hr
    dsimp only at hr
    split at hr
    · next hfound =>
      obtain ⟨slot, htoken, hr⟩ := bind_eq_ok.1 hr
      obtain ⟨⟨total, bytes⟩, hrest, hr⟩ := bind_eq_ok.1 hr
      cases hr
      exact (ih hrest).cons hfound (hslot token slot htoken)
    · next hfound =>
      obtain ⟨slot, hnone, hr⟩ := bind_eq_ok.1 hr
      obtain ⟨⟨total, bytes⟩, hrest, hr⟩ := bind_eq_ok.1 hr
      cases hnone
      cases hr
      exact (ih hrest).past hfound

theorem append_of_splitSlot? {width : Nat} {rest text after : List Char}
    (h : splitSlot? width rest = some (text, after)) : rest = '\'' :: text ++ '\'' :: after := by
  unfold splitSlot? at h
  split at h
  · split at h
    · next hsplit =>
      cases h
      rw [Text.append_of_splitAtByte? hsplit]
      rfl
    · cases h
  · cases h

theorem readSlots_gives {line : List Char}
    (hslot : ∀ text slot, text ⊆ Text.dropTrailing Text.isLineEnd line →
      Text.padAscii (String.ofList text) h.type.size = .ok slot → P slot)
    {fuel found : Nat} {rest : List Char} {given : Nat × Bytes}
    (hrest : rest ⊆ Text.dropTrailing Text.isLineEnd line)
    (hr : readSlots h line fuel found rest = .ok given) : Gives h P found given := by
  induction fuel generalizing found rest given with
  | zero =>
    cases hr
    exact gives_nothing found
  | succ fuel ih =>
    have hblank := List.Subset.trans (List.dropWhile_sublist (· == ' ') (l := rest)).subset hrest
    unfold readSlots at hr
    split at hr
    · cases hr
      exact gives_nothing found
    · split at hr
      · cases hr
      · next text after hsplit =>
        rw [append_of_splitSlot? hsplit] at hblank
        have htext : text ⊆ Text.dropTrailing Text.isLineEnd line :=
          fun c hc => hblank (by simp [hc])
        have hafter : after ⊆ Text.dropTrailing Text.isLineEnd line :=
          fun c hc => hblank (by simp [hc])
        dsimp only at hr
        split at hr
        · next hfound =>
          obtain ⟨slot, hpad, hr⟩ := bind_eq_ok.1 hr
          obtain ⟨⟨total, bytes⟩, hback, hr⟩ := bind_eq_ok.1 hr
          cases hr
          exact (ih hafter hback).cons hfound (hslot text slot htext hpad)
        · next hfound =>
          obtain ⟨slot, hnone, hr⟩ := bind_eq_ok.1 hr
          obtain ⟨⟨total, bytes⟩, hback, hr⟩ := bind_eq_ok.1 hr
          cases hnone
          cases hr
          exact (ih hafter hback).past hfound

theorem readLines_gives {read : Nat → List Char → Outcome (Nat × Bytes)} {lines : List (List Char)}
    (hread : ∀ line ∈ lines, ∀ found given, read found line = .ok given → Gives h P found given)
    {found : Nat} {given : Nat × Bytes} (hr : readLines read found lines = .ok given) :
    Gives h P found given := by
  induction lines generalizing found given with
  | nil =>
    cases hr
    exact gives_nothing found
  | cons line lines ih =>
    obtain ⟨⟨middle, front⟩, hfront, hr⟩ := bind_eq_ok.1 hr
    obtain ⟨⟨total, back⟩, hback, hr⟩ := bind_eq_ok.1 hr
    cases hr
    simp only [List.mem_cons, forall_eq_or_imp] at hread
    exact (hread.1 _ _ hfront).append (ih hread.2 hback)

inductive ReadFrom (h : Header) (lines : List (List Char)) (slot : Bytes) : Prop where
  | word {token : Text.Token} (numeric : ¬h.type.isString) (read : tokenSlot h token = .ok slot)
  | string {line text : List Char} (isString : h.type.isString) (mem : line ∈ lines)
      (subset : text ⊆ Text.dropTrailing Text.isLineEnd line)
      (read : Text.padAscii (String.ofList text) h.type.size = .ok slot)

theorem slots_of_payload {lines : List (List Char)} {bytes : Bytes}
    (hr : payload h lines = .ok bytes) : ∃ slots : List Bytes, bytes = slots.flatten ∧
      (h.type.size = 0 ∨ slots.length = h.count) ∧ ∀ slot ∈ slots, ReadFrom h lines slot := by
  obtain ⟨⟨found, given⟩, hlines, hr⟩ := bind_eq_ok.1 hr
  have hgives : Gives h (ReadFrom h lines) 0 (found, given) := by
    refine readLines_gives (fun line hline found given hline' => ?_) hlines
    split at hline'
    · next hstring =>
      exact readSlots_gives (fun text slot => .string hstring hline) (List.Subset.refl _) hline'
    · next hstring =>
      obtain ⟨tokens, -, hline'⟩ := bind_eq_ok.1 hline'
      exact readTokens_gives (fun token slot => .word hstring) hline'
  obtain ⟨slots, rfl, hlength, hall⟩ := hgives
  dsimp only at hr
  split at hr
  · next hcount =>
    cases hr
    refine ⟨slots, rfl, hcount.imp_right fun hcount => ?_, hall⟩
    rw [Nat.zero_min, Nat.zero_add, hcount, Nat.min_self] at hlength
    exact hlength
  · cases hr

theorem length_of_valueSlot? {type : ElementType} {text : List Char} {slot : Bytes}
    (hr : valueSlot? type text = some slot) : slot.length = type.size := by
  unfold valueSlot? at hr
  split at hr
  · obtain ⟨x, -, rfl⟩ := Option.map_eq_some_iff.1 hr
    exact Element.length_encode x
  · obtain ⟨x, -, rfl⟩ := Option.map_eq_some_iff.1 hr
    exact Element.length_encode (Single.ofNumber x)
  · obtain ⟨x, -, rfl⟩ := Option.map_eq_some_iff.1 hr
    exact Element.length_encode (Double.ofNumber x)
  · split at hr
    · cases hr
      exact Element.length_encode true
    · split at hr
      · cases hr
        exact Element.length_encode false
      · cases hr
  · cases hr
  · cases hr
  · cases hr

theorem length_of_tokenSlot {token : Text.Token} {slot : Bytes}
    (hr : tokenSlot h token = .ok slot) : slot.length = h.type.size := by
  unfold tokenSlot at hr
  cases token with
  | quoted text => cases hr
  | bare text =>
    dsimp only at hr
    split at hr
    · next hvalue =>
      cases hr
      exact length_of_valueSlot? hvalue
    · cases hr

theorem ReadFrom.length_eq {lines : List (List Char)} {slot : Bytes} (hr : ReadFrom h lines slot) :
    slot.length = h.type.size := by
  cases hr with
  | word _ hread => exact length_of_tokenSlot hread
  | string _ _ _ hread => exact Text.length_padAscii hread

theorem length_of_payload {lines : List (List Char)} {bytes : Bytes}
    (hr : payload h lines = .ok bytes) : bytes.length = h.count * h.type.size := by
  obtain ⟨slots, rfl, hcount, hall⟩ := slots_of_payload hr
  rw [Bytes.length_flatten_of_forall fun slot hslot => (hall slot hslot).length_eq]
  rcases hcount with hzero | hcount
  · rw [hzero, Nat.mul_zero, Nat.mul_zero]
  · rw [hcount]

end Lines

end Reservoir
