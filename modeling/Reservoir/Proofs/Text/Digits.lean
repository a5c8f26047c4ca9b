import Mathlib.Algebra.Order.Ring.Nat
import Mathlib.Data.List.Basic
import Mathlib.Data.List.Induction
import Reservoir.ElementType
import Reservoir.Name

/-!
Decimal digits as positional values. Zeros in front change nothing, zeros at the end scale by
powers of ten, and the padded width of a string type is read back from its code.
-/

namespace Reservoir

namespace Text

theorem ofDigits_append (ds es : List Nat) :
    ofDigits (ds ++ es) = ofDigits ds * 10 ^ es.length + ofDigits es := by
  induction es using List.reverseRecOn with
  | nil => simp [ofDigits]
  | append_singleton es d ih =>
    rw [← List.append_assoc, ofDigits_concat, ih, ofDigits_concat, List.length_append,
      List.length_singleton, pow_succ, Nat.add_mul, Nat.mul_assoc, Nat.add_assoc]

theorem ofDigits_replicate_zero (n : Nat) : ofDigits (List.replicate n 0) = 0 := by
  induction n with
  | zero => rfl
  | succ n ih => rw [List.replicate_succ', ofDigits_concat, ih]

theorem ofDigits_zeros_append (n : Nat) (ds : List Nat) :
    ofDigits (List.replicate n 0 ++ ds) = ofDigits ds := by
  rw [ofDigits_append, ofDigits_replicate_zero, Nat.zero_mul, Nat.zero_add]

theorem ofDigits_append_zeros (ds : List Nat) (n : Nat) :
    ofDigits (ds ++ List.replicate n 0) = ofDigits ds * 10 ^ n := by
  rw [ofDigits_append, ofDigits_replicate_zero, List.length_replicate, Nat.add_zero]

theorem length_digits_le {n width : Nat} (hw : 0 < width) (h : n < 10 ^ width) :
    (digits n).length ≤ width := by
  fun_induction digits n generalizing width with
  | case1 n hn => exact hw
  | case2 n hn ih =>
    obtain ⟨width, rfl⟩ : ∃ w, width = w + 1 := ⟨width - 1, by omega⟩
    have hpos : 0 < width := by
      by_contra hzero
      have : width = 0 := by omega
      simp [this] at h
      omega
    have hdiv : n / 10 < 10 ^ width := by
      rw [pow_succ] at h
      omega
    have := ih hpos hdiv
    simp only [List.length_append, List.length_singleton]
    omega

theorem mem_decimal {n : Nat} {c : Char} (h : c ∈ decimal n) : ∃ d < 10, c = digitChar d := by
  obtain ⟨d, hd, rfl⟩ := List.mem_map.1 h
  exact ⟨d, lt_ten_of_mem_digits hd, rfl⟩

theorem mem_padLeft {width : Nat} {fill c : Char} {cs : List Char} (h : c ∈ padLeft width fill cs) :
    c = fill ∨ c ∈ cs := by
  rcases List.mem_append.1 h with h | h
  · exact Or.inl (List.eq_of_mem_replicate h)
  · exact Or.inr h

theorem forall_mem_padLeft_decimal {P : Char → Prop} {fill : Char} (hfill : P fill)
    (hdigit : ∀ d < 10, P (digitChar d)) (width n : Nat) :
    ∀ c ∈ padLeft width fill (decimal n), P c := by
  intro c hc
  rcases mem_padLeft hc with rfl | hc
  · exact hfill
  · obtain ⟨d, hd, rfl⟩ := mem_decimal hc
    exact hdigit d hd

theorem decimal_ne_cons {sign : Char} (hsign : ∀ d < 10, sign ≠ digitChar d) (n : Nat)
    (rest : List Char) : decimal n ≠ sign :: rest := by
  intro heq
  have hmem : sign ∈ decimal n := by
    rw [heq]
    exact List.mem_cons_self
  obtain ⟨d, hd, hdigit⟩ := mem_decimal hmem
  exact hsign d hd hdigit

theorem decimal_injective : Function.Injective decimal := by
  intro m n h
  have hread := congrArg readDigits? h
  rwa [readDigits?_decimal, readDigits?_decimal, Option.some.injEq] at hread

theorem notMem_signedDecimal {c : Char} (hdigit : ∀ d < 10, c ≠ digitChar d) (hsign : c ≠ '-')
    (n : Int) : c ∉ signedDecimal n := by
  have hdecimal : ∀ m, c ∉ decimal m := by
    intro m hc
    obtain ⟨d, hd, heq⟩ := mem_decimal hc
    exact hdigit d hd heq
  cases n with
  | ofNat n => exact hdecimal n
  | negSucc n =>
    rw [signedDecimal, List.mem_cons, not_or]
    exact ⟨hsign, hdecimal (n + 1)⟩

theorem signedDecimal_injective : Function.Injective signedDecimal := by
  have hsign : ∀ d < 10, '-' ≠ digitChar d := by decide
  intro m n h
  cases m with
  | ofNat m =>
    cases n with
    | ofNat n => exact congrArg Int.ofNat (decimal_injective h)
    | negSucc n => exact (decimal_ne_cons hsign _ _ h).elim
  | negSucc m =>
    cases n with
    | ofNat n => exact (decimal_ne_cons hsign _ _ h.symm).elim
    | negSucc n =>
      have hnext := decimal_injective (List.cons.inj h).2
      rw [Nat.succ.inj hnext]

theorem readDigits?_map {ds : List Nat} (hne : ds ≠ []) (h : ∀ d ∈ ds, d < 10) :
    readDigits? (ds.map digitChar) = some (ofDigits ds) := by
  simp [readDigits?, hne, mapM_digitValue? h]

theorem padLeft_zero_decimal (width n : Nat) :
    padLeft width '0' (decimal n) =
      (List.replicate (width - (digits n).length) 0 ++ digits n).map digitChar := by
  simp only [padLeft, decimal, List.length_map, List.map_append, List.map_replicate]
  rfl

theorem lt_ten_of_mem_zeros_append {width n d : Nat} (h : d ∈ List.replicate width 0 ++ digits n) :
    d < 10 := by
  rcases List.mem_append.1 h with h | h
  · rw [List.eq_of_mem_replicate h]
    decide
  · exact lt_ten_of_mem_digits h

theorem readDigits?_padLeft (width n : Nat) :
    readDigits? (padLeft width '0' (decimal n)) = some n := by
  rw [padLeft_zero_decimal, readDigits?_map (by simp [digits_ne_nil]), ofDigits_zeros_append,
    ofDigits_digits]
  exact fun _ => lt_ten_of_mem_zeros_append

end Text

namespace ElementType

open Text

theorem length_code (type : ElementType) : type.code.length = 4 := by
  cases type with
  | fixed width =>
    have hw : (digits width.val).length ≤ 3 :=
      length_digits_le (by decide) (by have := width.property; omega)
    simp only [code, padLeft, decimal, List.length_cons, List.length_append, List.length_replicate,
      List.length_map]
    omega
  | _ => rfl

theorem ofCode?_digits {a b c : Char} {n : Nat} (h : readDigits? [a, b, c] = some n) :
    ofCode? ['C', a, b, c] = if h : 1 ≤ n ∧ n ≤ 999 then some (fixed ⟨n, h⟩) else none := by
  have hchar : ¬(a = 'H' ∧ b = 'A' ∧ c = 'R') := by
    rintro ⟨rfl, rfl, rfl⟩
    simp [readDigits?, digitValue?] at h
  unfold ofCode?
  split <;> simp_all

theorem ofCode?_code (type : ElementType) : ofCode? type.code = some type := by
  cases type with
  | fixed width =>
    have hread := readDigits?_padLeft 3 width.val
    have hlen : (padLeft 3 '0' (decimal width.val)).length = 3 :=
      Nat.succ.inj (length_code (fixed width))
    obtain ⟨a, b, c, hcode⟩ := List.length_eq_three.1 hlen
    rw [hcode] at hread
    rw [code, hcode, ofCode?_digits hread, dif_pos width.property]
  | _ => rfl

theorem isAscii_of_mem_code {type : ElementType} {c : Char} (h : c ∈ type.code) : isAscii c := by
  cases type with
  | fixed width =>
    rcases List.mem_cons.1 h with rfl | h
    · rfl
    have hdigit : ∀ d < 10, isAscii (digitChar d) := by decide
    exact forall_mem_padLeft_decimal (P := (isAscii ·)) rfl hdigit _ _ c h
  | _ => exact List.all_eq_true.1 rfl c h

end ElementType

end Reservoir
