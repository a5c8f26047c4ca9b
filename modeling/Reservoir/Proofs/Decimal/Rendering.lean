import Mathlib.Data.List.TakeWhile
import Reservoir.Decimal.Text
import Reservoir.Proofs.Text.Digits

/-!
Decimal text with an exponent, from its digits. Laying such a text out in a style moves the point in
front of all digits: each of them is kept, zeros may follow, and the exponent grows by one unless
there is nothing but zeros.
-/

namespace Reservoir

namespace Text

theorem isDigit_digitChar : ∀ d < 10, isDigit (digitChar d) = true := by
  decide

theorem isDigit_of_mem_map {ds : List Nat} (h : ∀ d ∈ ds, d < 10) :
    ∀ c ∈ ds.map digitChar, isDigit c = true := by
  intro c hc
  obtain ⟨d, hd, rfl⟩ := List.mem_map.1 hc
  exact isDigit_digitChar d (h d hd)

theorem span_digits {cs : List Char} (h : ∀ c ∈ cs, isDigit c = true) {mark : Char}
    (hmark : isDigit mark = false) (rest : List Char) :
    (cs ++ mark :: rest).takeWhile isDigit = cs ∧
      (cs ++ mark :: rest).dropWhile isDigit = mark :: rest := by
  have hstop : ¬isDigit mark = true := Bool.eq_false_iff.1 hmark
  rw [List.takeWhile_append_of_pos h, List.dropWhile_append_of_pos h,
    List.takeWhile_cons_of_neg hstop, List.dropWhile_cons_of_neg hstop, List.append_nil]
  exact ⟨rfl, rfl⟩

def minusIf (negative : Bool) : List Char := if negative then ['-'] else []

def belowOne (mark : Char) (ds : List Nat) (e : Int) : List Char :=
  '0' :: '.' :: ds.map digitChar ++ mark :: Scientific.exponentDigits e

theorem filter_pointed {cs : List Char} (h : ∀ c ∈ cs, isDigit c = true) :
    (Scientific.pointed cs).filter isDigit = cs := by
  have hdropped : (Scientific.pointed cs).filter isDigit = cs.filter isDigit := by
    match cs with
    | [] => rfl
    | [_] => rfl
    | first :: second :: rest =>
      simp only [Scientific.pointed, List.filter_cons]
      rfl
  rw [hdropped, List.filter_eq_self.2 h]

theorem mem_pointed {cs : List Char} {c : Char} (h : c ∈ Scientific.pointed cs) :
    c = '.' ∨ c ∈ cs := by
  match cs with
  | [] => cases h
  | [_] => exact .inr h
  | first :: second :: rest =>
    simp only [Scientific.pointed, List.mem_cons] at h ⊢
    tauto

theorem digitChar_ne {c : Char} (h : isDigit c = false) {d : Nat} (hd : d < 10) :
    digitChar d ≠ c := by
  rintro rfl
  rw [isDigit_digitChar d hd] at h
  cases h

theorem digitChar_eq_zero_iff : ∀ d < 10, (digitChar d == '0') = (d == 0) := by
  decide

theorem splitMinus_minusIf (negative : Bool) {first : Char} (h : isDigit first = true)
    (rest : List Char) : ExponentStyle.splitMinus (minusIf negative ++ first :: rest) =
      (minusIf negative, first :: rest) := by
  cases negative with
  | true => rfl
  | false =>
    change ExponentStyle.splitMinus (first :: rest) = ([], first :: rest)
    unfold ExponentStyle.splitMinus
    split
    · next hminus =>
      obtain ⟨rfl, -⟩ := List.cons.inj hminus
      cases h
    · rfl

theorem ofDigits_of_all_zero {ds : List Nat} (h : ds.all (· == 0) = true) : ofDigits ds = 0 := by
  have hzeros : ds = List.replicate ds.length 0 :=
    List.eq_replicate_of_mem fun d hd => by simpa using List.all_eq_true.1 h d hd
  rw [hzeros, ofDigits_replicate_zero]

theorem readInt32?_minusIf (negative : Bool) {es : List Nat} (hne : es ≠ [])
    (h : ∀ d ∈ es, d < 10) (hrange : ofDigits es < 2 ^ 31) :
    readInt32? (minusIf negative ++ es.map digitChar) =
      some (Int32.ofInt (if negative then -(ofDigits es : Int) else ofDigits es)) := by
  have hread := readDigits?_map hne h
  have hword : ∀ x : Int, x.natAbs < 2 ^ 31 → ((some x).filter fun x =>
      Int32.minValue.toInt ≤ x && x ≤ Int32.maxValue.toInt).map Int32.ofInt =
        some (Int32.ofInt x) := by
    intro x hx
    have hlow : Int32.minValue.toInt ≤ x := by
      rw [show Int32.minValue.toInt = -2 ^ 31 from rfl]
      omega
    have hhigh : x ≤ Int32.maxValue.toInt := by
      rw [show Int32.maxValue.toInt = 2 ^ 31 - 1 from rfl]
      omega
    rw [Option.filter_some, if_pos (Bool.and_eq_true_iff.2 ⟨decide_eq_true hlow,
      decide_eq_true hhigh⟩), Option.map_some]
  cases negative with
  | true =>
    rw [if_pos rfl, ← hword _ (by omega)]
    change (((readDigits? (es.map digitChar)).map fun n => -Int.ofNat n).filter _).map _ = _
    rw [hread]
    rfl
  | false =>
    rw [if_neg Bool.false_ne_true, ← hword _ (by omega)]
    obtain ⟨e, es, rfl⟩ := List.exists_cons_of_ne_nil hne
    have he := h e List.mem_cons_self
    unfold readInt32?
    dsimp only
    split
    · next hplus => exact absurd (List.cons.inj hplus).1 (digitChar_ne rfl he)
    · next hminus => exact absurd (List.cons.inj hminus).1 (digitChar_ne rfl he)
    · change (((readDigits? ((e :: es).map digitChar)).map Int.ofNat).filter _).map _ = _
      rw [hread]
      rfl

end Text

open Text

theorem ExponentStyle.layOut_word (style : ExponentStyle) {word : List Char} (h : 'e' ∉ word) :
    style.layOut word = List.replicate (style.decimals + 7 - word.length) ' ' ++ word := by
  have hnone : word.dropWhile (· != 'e') = [] :=
    List.dropWhile_eq_nil_iff.2 fun c hc => bne_iff_ne.2 fun hmark => h (hmark ▸ hc)
  rw [layOut, hnone]
  rfl

/-- The digits of a number that is written with one digit before the point and an exponent. -/
structure Rendering where
  negative : Bool
  digits : List Nat
  exponentNegative : Bool
  exponentDigits : List Nat
  digits_ne_nil : digits ≠ []
  exponentDigits_ne_nil : exponentDigits ≠ []
  digits_lt_ten : ∀ d ∈ digits, d < 10
  exponentDigits_lt_ten : ∀ d ∈ exponentDigits, d < 10

namespace Rendering

variable (r : Rendering)

def text : List Char :=
  minusIf r.negative ++ Scientific.pointed (r.digits.map digitChar) ++
    'e' :: (minusIf r.exponentNegative ++ r.exponentDigits.map digitChar)

def exponent : Int :=
  if r.exponentNegative then -(ofDigits r.exponentDigits : Int) else ofDigits r.exponentDigits

def mantissaExponent : Int := if r.digits.all (· == 0) then 0 else r.exponent + 1

def mantissaDigits (decimals : Nat) : List Nat :=
  r.digits ++ List.replicate (decimals - r.digits.length) 0

theorem mantissaDigits_lt_ten (decimals : Nat) : ∀ d ∈ r.mantissaDigits decimals, d < 10 := by
  intro d hd
  rcases List.mem_append.1 hd with hd | hd
  · exact r.digits_lt_ten d hd
  · rw [List.eq_of_mem_replicate hd]
    decide

theorem ne_mark_of_mem {c : Char}
    (h : c ∈ minusIf r.negative ++ Scientific.pointed (r.digits.map digitChar)) :
    (c != 'e') = true := by
  rcases List.mem_append.1 h with h | h
  · unfold minusIf at h
    split at h
    · rw [List.mem_singleton.1 h]
      rfl
    · cases h
  · rcases mem_pointed h with rfl | h
    · rfl
    · obtain ⟨d, hd, rfl⟩ := List.mem_map.1 h
      exact bne_iff_ne.2 (digitChar_ne rfl (r.digits_lt_ten d hd))

theorem movedExponent_eq (h : r.exponent.natAbs < 2 ^ 31 - 1) :
    ExponentStyle.movedExponent (r.digits.map digitChar)
      (minusIf r.exponentNegative ++ r.exponentDigits.map digitChar) = r.mantissaExponent := by
  have hall : (r.digits.map digitChar).all (· == '0') = r.digits.all (· == 0) := by
    rw [List.all_map, Bool.eq_iff_iff, List.all_eq_true, List.all_eq_true]
    refine forall₂_congr fun d hd => ?_
    rw [Function.comp_apply, digitChar_eq_zero_iff d (r.digits_lt_ten d hd)]
  have hrange : ofDigits r.exponentDigits < 2 ^ 31 := by
    unfold exponent at h
    split at h <;> omega
  have hread := readInt32?_minusIf r.exponentNegative r.exponentDigits_ne_nil
    r.exponentDigits_lt_ten hrange
  rw [ExponentStyle.movedExponent, hall, hread, mantissaExponent]
  refine if_congr Iff.rfl rfl ?_
  -- The largest word has no successor; here the exponent is less than it.
  change (Int32.ofInt r.exponent + Int32.ofInt 1).toInt = r.exponent + 1
  rw [← Int32.ofInt_add, Int32.toInt_ofInt_of_le (by omega) (by omega)]

theorem exists_pointed_eq_cons : ∃ first rest,
    Scientific.pointed (r.digits.map digitChar) = first :: rest ∧ isDigit first = true := by
  have hdigits := isDigit_of_mem_map r.digits_lt_ten
  obtain ⟨first, digits, hcons⟩ := List.exists_cons_of_ne_nil
    (mt List.map_eq_nil_iff.1 r.digits_ne_nil : r.digits.map digitChar ≠ [])
  rw [hcons] at hdigits ⊢
  cases digits with
  | nil => exact ⟨first, [], rfl, hdigits first List.mem_cons_self⟩
  | cons second digits =>
    exact ⟨first, '.' :: second :: digits, rfl, hdigits first List.mem_cons_self⟩

theorem cut_text :
    r.text.takeWhile (· != 'e') =
        minusIf r.negative ++ Scientific.pointed (r.digits.map digitChar) ∧
      r.text.dropWhile (· != 'e') =
        'e' :: (minusIf r.exponentNegative ++ r.exponentDigits.map digitChar) := by
  have hmark := fun c => @ne_mark_of_mem r c
  rw [text, List.takeWhile_append_of_pos hmark, List.dropWhile_append_of_pos hmark,
    List.takeWhile_cons, List.dropWhile_cons, if_neg (by decide), if_neg (by decide),
    List.append_nil]
  exact ⟨rfl, rfl⟩

theorem layOut_text (h : r.exponent.natAbs < 2 ^ 31 - 1) (style : ExponentStyle) :
    ∃ n, style.layOut r.text = List.replicate n ' ' ++ (minusIf r.negative ++
      belowOne style.marker (r.mantissaDigits style.decimals) r.mantissaExponent) := by
  obtain ⟨hfront, hback⟩ := r.cut_text
  obtain ⟨first, rest, hpointed, hfirst⟩ := r.exists_pointed_eq_cons
  have hsign := splitMinus_minusIf r.negative hfirst rest
  rw [← hpointed] at hsign
  have hdigits := filter_pointed (isDigit_of_mem_map r.digits_lt_ten)
  have hmantissa : padRight style.decimals '0' (r.digits.map digitChar) =
      (r.mantissaDigits style.decimals).map digitChar := by
    rw [padRight, mantissaDigits, List.length_map, List.map_append, List.map_replicate]
    rfl
  simp only [ExponentStyle.layOut, hback, hfront, hsign, hdigits, r.movedExponent_eq h, hmantissa,
    padLeft, List.append_assoc]
  exact ⟨_, rfl⟩

def ofScientific (s : Scientific) (hne : s.digits ≠ []) (hlt : ∀ d ∈ s.digits, d < 10) :
    Rendering where
  negative := s.negative
  digits := s.digits
  exponentNegative := s.exponent < 0
  exponentDigits := Text.digits s.exponent.natAbs
  digits_ne_nil := hne
  exponentDigits_ne_nil := Text.digits_ne_nil _
  digits_lt_ten := hlt
  exponentDigits_lt_ten _ := lt_ten_of_mem_digits

variable {s : Scientific} (hne : s.digits ≠ []) (hlt : ∀ d ∈ s.digits, d < 10)

theorem text_ofScientific : (ofScientific s hne hlt).text = s.exponential := by
  have hexponent : minusIf (s.exponent < 0) ++ (Text.digits s.exponent.natAbs).map digitChar =
      signedDecimal s.exponent := by
    cases s.exponent with
    | ofNat n =>
      rw [minusIf, if_neg (by simp)]
      rfl
    | negSucc n =>
      rw [minusIf, if_pos (by simp [Int.negSucc_lt_zero])]
      rfl
  rw [text, Scientific.exponential, ← hexponent]
  rfl

theorem exponent_ofScientific : (ofScientific s hne hlt).exponent = s.exponent := by
  simp only [exponent, ofScientific, ofDigits_digits, decide_eq_true_eq]
  omega

end Rendering

end Reservoir
