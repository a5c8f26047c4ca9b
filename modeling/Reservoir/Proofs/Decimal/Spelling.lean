import Reservoir.Proofs.Decimal.ReadBack
import Reservoir.Proofs.Decimal.Rendering
import Reservoir.Proofs.Text.Tokens
import Reservoir.Decimal.Word
import Reservoir.Stream.Lines

/-!
Numbers written with an exponent are read back to the same bits. The digits of a mantissa may
carry zeros at their end, and the letter of the exponent is read in either precision.
-/

namespace Reservoir

open Text

namespace Text

theorem splitSign_minusIf (negative : Bool) {first : Char} (h : isDigit first = true)
    (rest : List Char) :
    splitSign (minusIf negative ++ first :: rest) = (negative, first :: rest) := by
  cases negative with
  | true => rfl
  | false =>
    change splitSign (first :: rest) = (false, first :: rest)
    unfold splitSign
    split
    · next hminus =>
      obtain ⟨rfl, -⟩ := List.cons.inj hminus
      cases h
    · next hplus =>
      obtain ⟨rfl, -⟩ := List.cons.inj hplus
      cases h
    · rfl

theorem readExponent?_exponentDigits (e : Int) :
    readExponent? (Scientific.exponentDigits e) = some e := by
  have hread := readDigits?_padLeft 2 e.natAbs
  unfold Scientific.exponentDigits
  split
  · next hneg =>
    rw [readExponent?, hread]
    refine congrArg some ?_
    change -(e.natAbs : Int) = e
    omega
  · next hneg =>
    rw [readExponent?, hread]
    refine congrArg some ?_
    change (e.natAbs : Int) = e
    omega

theorem readDecimal?_belowOne {ds : List Nat} (h : ∀ d ∈ ds, d < 10) (e : Int) :
    readDecimal? (belowOne 'E' ds e) = some ⟨ofDigits ds, e - ds.length⟩ := by
  have hdigits := isDigit_of_mem_map h
  have hwhole : readDigits? ('0' :: ds.map digitChar) = some (ofDigits ds) := by
    have hread : readDigits? ((0 :: ds).map digitChar) = some (ofDigits (0 :: ds)) :=
      readDigits?_map (by simp) (by simpa using h)
    have hzero := ofDigits_zeros_append 1 ds
    rw [List.replicate_one, List.singleton_append] at hzero
    rw [hzero] at hread
    exact hread
  obtain ⟨htake, hdrop⟩ :=
    span_digits hdigits (show isDigit 'E' = false from rfl) (Scientific.exponentDigits e)
  have hfront : (belowOne 'E' ds e).takeWhile isDigit = ['0'] := rfl
  have hback : (belowOne 'E' ds e).dropWhile isDigit =
      '.' :: (ds.map digitChar ++ 'E' :: Scientific.exponentDigits e) := rfl
  simp only [readDecimal?, hfront, hback, htake, hdrop, List.singleton_append, hwhole,
    readExponent?_exponentDigits, List.length_map]
  rfl

end Text

def Scientific.mantissaExponent (s : Scientific) : Int := if s.isZero then 0 else s.exponent + 1

namespace Number

def IsNaN : Number → Prop
  | .nan _ => True
  | .infinite _ | .finite _ _ => False

instance (x : Number) : Decidable x.IsNaN :=
  match x with
  | .nan _ => isTrue trivial
  | .infinite _ | .finite _ _ => isFalse id

end Number

namespace BinaryFormat

theorem word_ne_of_digit {cs : List Char} (word : String) (h : word.toList.head? ≠ some '0') :
    String.ofList (('0' :: cs).map foldCase) ≠ word := by
  rintro rfl
  exact h (by simp [foldCase])

theorem read?_belowOne (format : BinaryFormat) {ds : List Nat} (h : ∀ d ∈ ds, d < 10) (e : Int)
    (negative : Bool) {rung : Nat} (hrung : rung < format.infinity)
    (hvalue : format.ofDecimal ⟨ofDigits ds, e - ds.length⟩ = rung) :
    format.read? (minusIf negative ++ belowOne 'E' ds e) =
      some (.finite negative rung) := by
  have hsplit : splitSign (minusIf negative ++ belowOne 'E' ds e) =
      (negative, belowOne 'E' ds e) := splitSign_minusIf negative rfl _
  have hinf : ¬(String.ofList ((belowOne 'E' ds e).map foldCase) = "inf" ∨
      String.ofList ((belowOne 'E' ds e).map foldCase) = "infinity") := by
    rintro (heq | heq)
    · exact word_ne_of_digit "inf" (by decide) heq
    · exact word_ne_of_digit "infinity" (by decide) heq
  have hnan : String.ofList ((belowOne 'E' ds e).map foldCase) ≠ "nan" :=
    word_ne_of_digit "nan" (by decide)
  simp only [read?, hsplit, if_neg hinf, if_neg hnan, readDecimal?_belowOne h, Option.map_some,
    hvalue, if_pos hrung]

theorem toNumber_finite {format : BinaryFormat} {bits rung : Nat} {negative : Bool}
    (h : format.toNumber bits = .finite negative rung) : rung < format.infinity := by
  unfold toNumber at h
  dsimp only at h
  split at h
  · cases h
    assumption
  · split at h
    · cases h
    · cases h

theorem ofNumber_toNumber {format : BinaryFormat} {bits : Nat} (h : bits < 2 * format.signBit)
    (hnan : ¬(format.toNumber bits).IsNaN) : format.ofNumber (format.toNumber bits) = bits := by
  have hpos : 0 < format.signBit := by omega
  have hbits : (if format.signBit ≤ bits then format.signBit + bits % format.signBit
      else bits % format.signBit) = bits := by
    split
    · next hneg =>
      rw [Nat.mod_eq_sub_mod hneg, Nat.mod_eq_of_lt (by omega)]
      omega
    · next hneg => exact Nat.mod_eq_of_lt (by omega)
  unfold toNumber at hnan ⊢
  dsimp only at hnan ⊢
  split
  · simpa [ofNumber] using hbits
  · next hfinite =>
    rw [if_neg hfinite] at hnan
    split
    · next hinf =>
      rw [hinf] at hbits
      simpa [ofNumber] using hbits
    · next hinf =>
      rw [if_neg hinf] at hnan
      exact absurd trivial hnan

theorem ofDecimal_scientific {format : BinaryFormat} (hwide : format.Wide) {rung : Nat}
    (h : rung < format.infinity) (negative : Bool) (zeros : Nat) :
    let s := format.scientific negative rung
    format.ofDecimal ⟨ofDigits (s.digits ++ List.replicate zeros 0),
      s.mantissaExponent - (s.digits ++ List.replicate zeros 0).length⟩ = rung := by
  intro s
  by_cases hzero : rung = 0
  · have hdigits : s.digits = [0] := by simp [s, scientific, hzero]
    have hvalue : ofDigits ([0] ++ List.replicate zeros 0) = 0 := by
      rw [ofDigits_append_zeros]
      exact Nat.zero_mul _
    rw [hdigits, hvalue, ofDecimal_zero, hzero]
  · have hshortest := ofDecimal_shortest hwide h
    have hcoefficient : (format.shortest rung).coefficient ≠ 0 := by
      intro hnone
      have hread : format.ofDecimal (format.shortest rung) = 0 := by simp [ofDecimal, hnone]
      exact hzero (hshortest.symm.trans hread)
    have hs : s = ⟨negative, digits (format.shortest rung).coefficient,
        (format.shortest rung).exponent +
          (digits (format.shortest rung).coefficient).length - 1⟩ := by
      simp only [s, scientific, if_neg hzero]
    have hnonzero : s.isZero = false := by
      rw [hs, Scientific.isZero]
      refine Bool.eq_false_iff.2 fun hall => hcoefficient ?_
      rw [← ofDigits_digits (format.shortest rung).coefficient, ofDigits_of_all_zero hall]
    have hexponent : s.mantissaExponent - (s.digits ++ List.replicate zeros 0).length =
        (format.shortest rung).exponent - zeros := by
      rw [Scientific.mantissaExponent, hnonzero, if_neg (by decide), List.length_append,
        List.length_replicate, hs]
      dsimp only
      omega
    rw [hexponent, ofDigits_append_zeros, hs, ofDigits_digits, ofDecimal_mul_pow]
    exact hshortest

theorem sign_scientific (format : BinaryFormat) (negative : Bool) (rung : Nat) :
    (format.scientific negative rung).sign = minusIf negative := by
  rw [Scientific.sign, scientific]
  split
  · rfl
  · rfl

theorem digits_scientific_ne_nil (format : BinaryFormat) (negative : Bool) (rung : Nat) :
    (format.scientific negative rung).digits ≠ [] := by
  unfold scientific
  split
  · exact List.cons_ne_nil 0 []
  · exact digits_ne_nil _

theorem lt_ten_of_mem_digits_scientific {format : BinaryFormat} {negative : Bool} {rung : Nat} :
    ∀ d ∈ (format.scientific negative rung).digits, d < 10 := by
  intro d hd
  unfold scientific at hd
  split at hd
  · rw [List.mem_singleton.1 hd]
    decide
  · exact lt_ten_of_mem_digits hd

theorem lt_ten_of_mem_scientific {format : BinaryFormat} {negative : Bool} {rung zeros : Nat} :
    ∀ d ∈ (format.scientific negative rung).digits ++ List.replicate zeros 0, d < 10 := by
  intro d hd
  rcases List.mem_append.1 hd with hd | hd
  · exact lt_ten_of_mem_digits_scientific d hd
  · rw [List.eq_of_mem_replicate hd]
    decide

theorem natAbs_exponent_scientific {format : BinaryFormat} (hwide : format.Wide) {rung : Nat}
    (h : rung < format.infinity) (negative : Bool) :
    (format.scientific negative rung).exponent.natAbs ≤ format.depth + 1 := by
  unfold scientific
  split
  · exact Nat.zero_le _
  · next hrung =>
    have hshortest := ofDecimal_shortest hwide h
    simp only [ofDecimal] at hshortest
    split at hshortest
    · exact absurd hshortest.symm hrung
    · next hlow =>
      split at hshortest
      · exact absurd hshortest.symm (Nat.ne_of_lt h)
      · next hhigh =>
        dsimp only
        omega

end BinaryFormat

namespace Text

theorem forall_mem_exponentDigits {P : Char → Prop} (hplus : P '+') (hminus : P '-')
    (hdigit : ∀ d < 10, P (digitChar d)) (e : Int) : ∀ c ∈ Scientific.exponentDigits e, P c := by
  intro c hc
  rcases List.mem_cons.1 hc with rfl | hc
  · split
    · exact hminus
    · exact hplus
  · exact forall_mem_padLeft_decimal (hdigit 0 (by decide)) hdigit _ _ c hc

theorem isBare_belowOne {mark : Char} (hmark : isPlain mark) {ds : List Nat}
    (h : ∀ d ∈ ds, d < 10) (e : Int) (negative : Bool) :
    IsBare (minusIf negative ++ belowOne mark ds e) := by
  constructor
  · intro hnil
    cases (List.append_eq_nil_iff.1 hnil).2
  · intro c hc
    rcases List.mem_append.1 hc with hc | hc
    · unfold minusIf at hc
      split at hc
      · rw [List.mem_singleton.1 hc]
        rfl
      · cases hc
    · simp only [belowOne, List.cons_append, List.mem_cons, List.mem_append, List.mem_map] at hc
      rcases hc with rfl | rfl | ⟨d, hd, rfl⟩ | rfl | hc
      · rfl
      · rfl
      · exact isPlain_digitChar d (h d hd)
      · exact hmark
      · exact forall_mem_exponentDigits (P := (isPlain ·)) rfl rfl isPlain_digitChar e c hc

end Text

namespace Lines

theorem exponentMark_digitChar : ∀ d < 10, exponentMark (digitChar d) = digitChar d := by
  decide

theorem map_exponentMark_eq_self {cs : List Char} (h : ∀ c ∈ cs, exponentMark c = c) :
    cs.map exponentMark = cs :=
  (List.map_congr_left h).trans (List.map_id' _)

theorem map_exponentMark_belowOne {mark : Char} (hmark : exponentMark mark = 'E') {ds : List Nat}
    (h : ∀ d ∈ ds, d < 10) (e : Int) (negative : Bool) :
    (minusIf negative ++ belowOne mark ds e).map exponentMark =
      minusIf negative ++ belowOne 'E' ds e := by
  have hsign : (minusIf negative).map exponentMark = minusIf negative := by
    cases negative with
    | false => rfl
    | true => rfl
  have hdigits : (ds.map digitChar).map exponentMark = ds.map digitChar := by
    refine map_exponentMark_eq_self fun c hc => ?_
    obtain ⟨d, hd, rfl⟩ := List.mem_map.1 hc
    exact exponentMark_digitChar d (h d hd)
  have hexponent : (Scientific.exponentDigits e).map exponentMark = Scientific.exponentDigits e :=
    map_exponentMark_eq_self (forall_mem_exponentDigits (P := (fun c => exponentMark c = c)) rfl rfl
      exponentMark_digitChar e)
  rw [List.map_append, hsign, belowOne, List.map_append, List.map_cons, List.map_cons,
    List.map_cons, hdigits, hexponent, hmark]
  rfl

theorem exponentText_eq (style : ExponentStyle) {s : Scientific} (hne : s.digits ≠ [])
    (hlt : ∀ d ∈ s.digits, d < 10) (hexponent : s.exponent.natAbs < 2 ^ 31 - 1) :
    ∃ n, (Rendered.number s).exponentText style = List.replicate n ' ' ++
      (s.sign ++ belowOne style.marker
        (s.digits ++ List.replicate (style.decimals - s.digits.length) 0) s.mantissaExponent) := by
  have hsame := Rendering.exponent_ofScientific hne hlt
  have htext := (Rendering.ofScientific s hne hlt).layOut_text (hsame ▸ hexponent) style
  rw [Rendering.text_ofScientific, Rendering.mantissaExponent, hsame] at htext
  exact htext

/-- The text of a number is a word with blanks before it, and the word is read as the number. -/
theorem exponentText_render {format : BinaryFormat} (hwide : format.Wide)
    (hdepth : format.depth + 1 < 2 ^ 31 - 1) {style : ExponentStyle}
    (hmark : exponentMark style.marker = 'E') (hplain : isPlain style.marker) {bits : Nat}
    (hnan : ¬(format.toNumber bits).IsNaN) :
    ∃ n word, (format.render (format.toNumber bits)).exponentText style =
        List.replicate n ' ' ++ word ∧
      IsBare word ∧ format.read? (word.map exponentMark) = some (format.toNumber bits) := by
  cases hx : format.toNumber bits with
  | nan negative =>
    rw [hx] at hnan
    exact absurd trivial hnan
  | infinite negative =>
    refine ⟨_, (if negative then "-inf" else "inf").toList, style.layOut_word ?_, ?_, ?_⟩
    · cases negative with
      | false => exact show 'e' ∉ "inf".toList by decide
      | true => exact show 'e' ∉ "-inf".toList by decide
    · cases negative with
      | false => exact .of_all (by decide) rfl
      | true => exact .of_all (by decide) rfl
    · cases negative with
      | false => rfl
      | true => rfl
  | finite negative rung =>
    have hrung := BinaryFormat.toNumber_finite hx
    obtain ⟨n, htext⟩ := exponentText_eq style (format.digits_scientific_ne_nil negative rung)
      BinaryFormat.lt_ten_of_mem_digits_scientific
      (Nat.lt_of_le_of_lt (BinaryFormat.natAbs_exponent_scientific hwide hrung negative) hdepth)
    rw [format.sign_scientific] at htext
    have hlt := @BinaryFormat.lt_ten_of_mem_scientific format negative rung
      (style.decimals - (format.scientific negative rung).digits.length)
    have hvalue := BinaryFormat.ofDecimal_scientific hwide hrung negative
      (style.decimals - (format.scientific negative rung).digits.length)
    refine ⟨n, _, htext, isBare_belowOne hplain hlt _ negative, ?_⟩
    rw [map_exponentMark_belowOne hmark hlt]
    exact format.read?_belowOne hlt _ negative hrung hvalue

theorem isField_exponentText {format : BinaryFormat} (hwide : format.Wide)
    (hdepth : format.depth + 1 < 2 ^ 31 - 1) {style : ExponentStyle}
    (hmark : exponentMark style.marker = 'E') (hplain : isPlain style.marker) {bits : Nat}
    (hnan : ¬(format.toNumber bits).IsNaN) :
    ∃ word, IsField
        (' ' :: ' ' :: (format.render (format.toNumber bits)).exponentText style) word ∧
      format.read? (word.map exponentMark) = some (format.toNumber bits) := by
  obtain ⟨n, word, htext, hbare, hread⟩ := exponentText_render hwide hdepth hmark hplain hnan
  rw [htext]
  exact ⟨word, ⟨hbare, n + 1, rfl⟩, hread⟩

end Lines

end Reservoir
