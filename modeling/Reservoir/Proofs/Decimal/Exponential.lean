import Mathlib.Algebra.Field.Rat
import Mathlib.Algebra.GroupWithZero.Basic
import Mathlib.Tactic.FieldSimp
import Reservoir.Proofs.Decimal.Spelling

/-!
Numbers keep their value when they are laid out with the point in front of all digits. The digits
grow by zeros at their end only, and the exponent makes up for the place of the point; what comes
out is one word between blanks, as it also is for infinity and NaN.
-/

namespace Reservoir

open Outcome Text

def Decimal.value (d : Decimal) : ℚ := d.coefficient * 10 ^ d.exponent

namespace Text

/-- A text is a decimal of this sign and magnitude. -/
def Denotes (cs : List Char) (negative : Bool) (magnitude : ℚ) : Prop :=
  ∃ unsigned d, splitSign cs = (negative, unsigned) ∧ readDecimal? unsigned = some d ∧
    d.value = magnitude

theorem readExponent?_minusIf (negative : Bool) {es : List Nat} (hne : es ≠ [])
    (h : ∀ d ∈ es, d < 10) : readExponent? (minusIf negative ++ es.map digitChar) =
      some (if negative then -(ofDigits es : Int) else ofDigits es) := by
  have hread := readDigits?_map hne h
  cases negative with
  | true =>
    change ((readDigits? (es.map digitChar)).map fun n => -(n : Int)) = _
    rw [hread]
    rfl
  | false =>
    obtain ⟨e, es, rfl⟩ := List.exists_cons_of_ne_nil hne
    have he := h e List.mem_cons_self
    unfold readExponent?
    split
    · next hplus => exact absurd (List.cons.inj hplus).1 (digitChar_ne rfl he)
    · next hminus => exact absurd (List.cons.inj hminus).1 (digitChar_ne rfl he)
    · change (readDigits? ((e :: es).map digitChar)).map Int.ofNat = _
      rw [hread]
      rfl

theorem exists_exponentDigits (e : Int) : ∃ (sign : Char) (ds : List Nat),
    (sign = '+' ∨ sign = '-') ∧ 2 ≤ ds.length ∧ (∀ d ∈ ds, d < 10) ∧
      Scientific.exponentDigits e = sign :: ds.map digitChar := by
  refine ⟨if e < 0 then '-' else '+',
    List.replicate (2 - (digits e.natAbs).length) 0 ++ digits e.natAbs, ?_, ?_,
    fun _ => lt_ten_of_mem_zeros_append, ?_⟩
  · split
    · exact .inr rfl
    · exact .inl rfl
  · rw [List.length_append, List.length_replicate]
    omega
  · rw [Scientific.exponentDigits, padLeft_zero_decimal]

theorem trim_bare {word : List Char} (h : IsBare word) (n : Nat) :
    trim (List.replicate n ' ' ++ word) = word ∧
      tokenize (List.replicate n ' ' ++ word) = .ok [.bare word] := by
  have hstart : trimStart (List.replicate n ' ' ++ word) = word := by
    obtain ⟨c, cs, rfl⟩ := List.exists_cons_of_ne_nil h.ne_nil
    rw [trimStart_replicate, trimStart_of_not_blank (h.isBlank List.mem_cons_self)]
  have hlast : ∀ c, (List.replicate n ' ' ++ word).getLast? = some c → isBlank c = false := by
    intro c hc
    rw [List.getLast?_append, List.getLast?_eq_some_getLast h.ne_nil, Option.some_or] at hc
    cases hc
    exact h.isBlank (List.getLast_mem _)
  constructor
  · rw [trim, hstart, trimEnd, dropTrailing_of_getLast?]
    exact fun c hc => h.isBlank (List.mem_of_getLast? hc)
  · rw [tokenize, dropTrailing_of_getLast? fun c hc => isLineEnd_of_not_blank (hlast c hc)]
    have hnothing : StartsBlank [] := fun c hc => by cases hc
    rw [tokensOf_bare h hnothing (hstart.trans (List.append_nil word).symm), tokensOf_nil rfl]
    rfl

end Text

namespace Rendering

variable (r : Rendering)

def magnitude : ℚ := ofDigits r.digits * 10 ^ (r.exponent - (r.digits.length - 1))

/-- A word of the form `[-]0.ddd E sign dd`. Right after the point come all digits, then zeros to
make up so many digits, and the exponent has at least two digits. -/
def KeptIn (decimals : Nat) (word : List Char) : Prop :=
  ∃ (zeros : Nat) (sign : Char) (exponent : List Nat),
    word = minusIf r.negative ++
      ('0' :: '.' :: (r.digits ++ List.replicate zeros 0).map digitChar ++
        'E' :: sign :: exponent.map digitChar) ∧
    decimals ≤ r.digits.length + zeros ∧ (sign = '+' ∨ sign = '-') ∧ 2 ≤ exponent.length ∧
    ∀ d ∈ exponent, d < 10

theorem readExponent?_exponentDigits :
    readExponent? (minusIf r.exponentNegative ++ r.exponentDigits.map digitChar) =
      some r.exponent :=
  readExponent?_minusIf r.exponentNegative r.exponentDigits_ne_nil r.exponentDigits_lt_ten

theorem readDecimal?_pointed : readDecimal? (Scientific.pointed (r.digits.map digitChar) ++
      'e' :: (minusIf r.exponentNegative ++ r.exponentDigits.map digitChar)) =
    some ⟨ofDigits r.digits, r.exponent - (r.digits.length - 1)⟩ := by
  have hread := readDigits?_map r.digits_ne_nil r.digits_lt_ten
  have hdigits := isDigit_of_mem_map r.digits_lt_ten
  have hexponent := r.readExponent?_exponentDigits
  generalize minusIf r.exponentNegative ++ r.exponentDigits.map digitChar = tail at hexponent ⊢
  rw [← r.digits.length_map digitChar]
  obtain ⟨first, digits, hcons⟩ := List.exists_cons_of_ne_nil
    (mt List.map_eq_nil_iff.1 r.digits_ne_nil : r.digits.map digitChar ≠ [])
  rw [hcons] at hread hdigits ⊢
  obtain ⟨hfirst, hrest⟩ := List.forall_mem_cons.1 hdigits
  have hmark : isDigit 'e' = false := rfl
  have hpoint : isDigit '.' = false := rfl
  -- The reader first stops at the mark if there is one digit alone, else at the point.
  cases digits with
  | nil =>
    obtain ⟨hwhole, hback⟩ := span_digits hdigits hmark tail
    change readDecimal? ([first] ++ 'e' :: tail) = _
    simp only [readDecimal?, hwhole, hback]
    split
    · next hnone => cases hread.symm.trans hnone
    · next coefficient hsome =>
      rw [← Option.some.inj (hread.symm.trans hsome)]
      simp [hexponent]
  | cons second digits =>
    obtain ⟨hwhole, hback⟩ :=
      span_digits (List.forall_mem_singleton.2 hfirst) hpoint (second :: digits ++ 'e' :: tail)
    obtain ⟨hfraction, hrest⟩ := span_digits hrest hmark tail
    change readDecimal? ([first] ++ '.' :: (second :: digits ++ 'e' :: tail)) = _
    simp only [readDecimal?, hwhole, hback]
    rw [hfraction, hrest, List.singleton_append, hread]
    simp [hexponent]

theorem denotes_text : Denotes r.text r.negative r.magnitude := by
  obtain ⟨first, rest, hpointed, hfirst⟩ := r.exists_pointed_eq_cons
  have hread := r.readDecimal?_pointed
  rw [hpointed, List.cons_append] at hread
  refine ⟨_, _, ?_, hread, rfl⟩
  rw [text, List.append_assoc, hpointed]
  exact splitSign_minusIf r.negative hfirst _

theorem value_mantissaDigits (decimals : Nat) :
    (⟨ofDigits (r.mantissaDigits decimals),
      r.mantissaExponent - (r.mantissaDigits decimals).length⟩ : Decimal).value = r.magnitude := by
  rw [Decimal.value, magnitude, mantissaDigits, ofDigits_append_zeros, List.length_append,
    List.length_replicate, mantissaExponent]
  generalize decimals - r.digits.length = zeros
  split
  · next hzero =>
    rw [ofDigits_of_all_zero hzero]
    simp
  · have hexponent : (zeros : Int) + (r.exponent + 1 - (r.digits.length + zeros : Nat)) =
        r.exponent - (r.digits.length - 1) := by omega
    rw [← hexponent, zpow_add₀ (by norm_num), zpow_natCast, ← mul_assoc]
    push_cast
    rfl

/-- Laid out in a style, a number is one word, which keeps all digits and denotes the same number
with the same sign. -/
theorem exists_word_layOut {style : ExponentStyle}
    (hmarker : style.marker = 'E' ∨ style.marker = 'D')
    (hrange : r.exponent.natAbs < 2 ^ 31 - 1) :
    ∃ word, trim (style.layOut r.text) = word ∧ IsBare word ∧
      tokenize (style.layOut r.text) = .ok [.bare word] ∧
      r.KeptIn style.decimals (word.map Lines.exponentMark) ∧
      Denotes r.text r.negative r.magnitude ∧
      Denotes (word.map Lines.exponentMark) r.negative r.magnitude := by
  obtain ⟨hmark, hplain⟩ : Lines.exponentMark style.marker = 'E' ∧ isPlain style.marker := by
    rcases hmarker with hmarker | hmarker
    · rw [hmarker]
      exact ⟨rfl, rfl⟩
    · rw [hmarker]
      exact ⟨rfl, rfl⟩
  obtain ⟨n, htext⟩ := r.layOut_text hrange style
  have hlt := r.mantissaDigits_lt_ten style.decimals
  have hbare : IsBare (minusIf r.negative ++ belowOne style.marker
      (r.mantissaDigits style.decimals) r.mantissaExponent) :=
    isBare_belowOne hplain hlt r.mantissaExponent r.negative
  have hform := Lines.map_exponentMark_belowOne hmark hlt r.mantissaExponent r.negative
  obtain ⟨htrim, htokens⟩ := trim_bare hbare n
  rw [← htext] at htrim htokens
  refine ⟨_, htrim, hbare, htokens, ?_, r.denotes_text, ?_⟩
  · obtain ⟨sign, exponent, hsign, hlength, hten, hexponent⟩ :=
      exists_exponentDigits r.mantissaExponent
    rw [hform, belowOne, hexponent]
    refine ⟨_, sign, exponent, rfl, ?_, hsign, hlength, hten⟩
    omega
  · rw [hform]
    exact ⟨_, _, splitSign_minusIf r.negative rfl _, readDecimal?_belowOne hlt _,
      r.value_mantissaDigits style.decimals⟩

end Rendering

namespace ExponentStyle

theorem tokenize_layOut_word (style : ExponentStyle) {word : List Char} (h : IsBare word)
    (he : 'e' ∉ word) :
    trim (style.layOut word) = word ∧ tokenize (style.layOut word) = .ok [.bare word] := by
  rw [style.layOut_word he]
  exact trim_bare h _

/-- Laid out in a style, every number is one word between blanks. It keeps all digits, and with the
mark `E` it denotes the same number with the same sign. What is no number is one word as well. -/
theorem layOut_same_number {style : ExponentStyle}
    (hmarker : style.marker = 'E' ∨ style.marker = 'D') :
    (∀ r : Rendering, r.exponent.natAbs < 2 ^ 31 - 1 →
      ∃ word, trim (style.layOut r.text) = word ∧ IsBare word ∧
        tokenize (style.layOut r.text) = .ok [.bare word] ∧
        r.KeptIn style.decimals (word.map Lines.exponentMark) ∧
        Denotes r.text r.negative r.magnitude ∧
        Denotes (word.map Lines.exponentMark) r.negative r.magnitude) ∧
    ∀ word ∈ ["inf", "-inf", "NaN"], trim (style.layOut word.toList) = word.toList ∧
      tokenize (style.layOut word.toList) = .ok [.bare word.toList] := by
  refine ⟨fun r hrange => r.exists_word_layOut hmarker hrange, fun word hword => ?_⟩
  have hplain : word.toList ≠ [] ∧ word.toList.all isPlain ∧ 'e' ∉ word.toList := by
    revert word
    decide
  exact style.tokenize_layOut_word (IsBare.of_all hplain.1 hplain.2.1) hplain.2.2

/-- Three digits are filled up to five, and the exponent grows by one. -/
theorem layOut_same_number_small : ∃ (style : ExponentStyle) (r : Rendering),
    style.marker = 'D' ∧ r.text = "-1.25e-1000".toList ∧ r.exponent.natAbs < 2 ^ 31 - 1 ∧
      style.layOut r.text = "-0.12500D-999".toList ∧
      Denotes ("-0.12500D-999".toList.map Lines.exponentMark) r.negative r.magnitude := by
  let r : Rendering := ⟨true, [1, 2, 5], true, [1, 0, 0, 0], by decide, by decide, by decide,
    by decide⟩
  let style : ExponentStyle := ⟨5, 'D'⟩
  have hrange : r.exponent.natAbs < 2 ^ 31 - 1 := by decide
  have htext : style.layOut r.text = "-0.12500D-999".toList := by decide +kernel
  have htrim : trim "-0.12500D-999".toList = "-0.12500D-999".toList := by decide +kernel
  obtain ⟨word, hword, -, -, -, -, hsame⟩ := (@layOut_same_number style (.inr rfl)).1 r hrange
  rw [← hword, htext, htrim] at hsame
  exact ⟨style, r, rfl, by decide, hrange, htext, hsame⟩

end ExponentStyle

end Reservoir
