import Mathlib.Data.List.TakeWhile
import Reservoir.Proofs.Text.Tokens
import Reservoir.Stream.Lines

/-!
The header line of a keyword gives its header back, provided that no quote ends the name too
early and the count is a machine word. With a quote in the name it is no header line at all.
-/

namespace Reservoir

open Text Outcome

theorem Text.dropTrailing_ne_nil {p : Char → Bool} {cs : List Char} {c : Char} (h : c ∈ cs)
    (hc : p c = false) : dropTrailing p cs ≠ [] := by
  intro hnil
  have hall := List.dropWhile_eq_nil_iff.1 (List.reverse_eq_nil_iff.1 hnil) c (List.mem_reverse.2 h)
  rw [hc] at hall
  cases hall

theorem Text.readCount?_decimal {n : Nat} (h : n < UInt64.size) :
    readCount? (decimal n) = some n := by
  have hfilter : (some n).filter (· < UInt64.size) = some n := by
    rw [Option.filter_some, if_pos (decide_eq_true h)]
  rw [← hfilter]
  unfold readCount?
  split
  · next rest hrest => exact absurd hrest (decimal_ne_cons (by decide) n rest)
  · dsimp only
    rw [readDigits?_decimal]

namespace ElementType

theorem isPlain_of_mem_code {type : ElementType} {c : Char} (h : c ∈ type.code) : isPlain c := by
  cases type with
  | fixed width =>
    rcases List.mem_cons.1 h with rfl | h
    · rfl
    exact forall_mem_padLeft_decimal (P := (isPlain ·)) rfl isPlain_digitChar _ _ c h
  | _ => exact List.all_eq_true.1 rfl c h

theorem isBare_code (type : ElementType) : IsBare type.code := by
  refine ⟨fun hnil => ?_, fun c hc => isPlain_of_mem_code hc⟩
  have hlength := type.length_code
  rw [hnil] at hlength
  cases hlength

theorem trimEnd_code (type : ElementType) : trimEnd type.code = type.code :=
  dropTrailing_of_getLast? fun _ hc => type.isBare_code.isBlank (List.mem_of_getLast? hc)

end ElementType

namespace Header

theorem line_eq (name : Name) (type : ElementType) (count : Nat) :
    line ⟨name.val, type, count⟩ = ' ' :: '\'' :: (name.padded ++ '\'' :: ' ' ::
      (padLeft 11 ' ' (decimal count) ++ ' ' :: '\'' :: (type.code ++ ['\'']))) := by
  have hcode : padRight 4 ' ' type.code = type.code := by
    rw [padRight, type.length_code, Nat.sub_self, List.replicate_zero, List.append_nil]
  simp [line, hcode, Name.padded]

theorem tokensOf_line {name : Name} (hname : '\'' ∉ name.val.toList) (type : ElementType)
    (count : Nat) (shown : List Char) : tokensOf shown (line ⟨name.val, type, count⟩) =
      .ok [.quoted name.padded, .bare (decimal count), .quoted type.code] := by
  have hpadded : ∀ c ∈ name.padded, isQuote c = false := by
    intro c hc
    rcases Name.mem_padded hc with hc | rfl
    · refine beq_false_of_ne fun hquote => hname ?_
      rw [← hquote]
      exact hc
    · rfl
  have hcode : ∀ c ∈ type.code, isQuote c = false := fun c hc => type.isBare_code.isQuote hc
  have hcount : trimStart (' ' :: (padLeft 11 ' ' (decimal count) ++
      ' ' :: '\'' :: (type.code ++ ['\'']))) =
      decimal count ++ ' ' :: '\'' :: (type.code ++ ['\'']) :=
    (isField_padLeft (isBare_decimal count) 11).trimStart_append _
  have hblank : StartsBlank (' ' :: '\'' :: (type.code ++ ['\''])) := by
    intro c hc
    cases hc
    rfl
  rw [line_eq, tokensOf_quoted hpadded rfl, tokensOf_bare (isBare_decimal count) hblank hcount,
    tokensOf_quoted hcode rfl, tokensOf_nil rfl]
  rfl

theorem isLineEnd_of_getLast?_line {h : Header} {c : Char} (hc : h.line.getLast? = some c) :
    isLineEnd c = false := by
  rw [line, List.getLast?_concat] at hc
  cases hc
  rfl

theorem trimEnd_line (h : Header) : trimEnd h.line = h.line := by
  refine dropTrailing_of_getLast? fun c hc => ?_
  rw [line, List.getLast?_concat] at hc
  cases hc
  rfl

theorem tokenize_line (h : Header) : tokenize h.line = tokensOf h.line h.line := by
  rw [tokenize, dropTrailing_of_getLast? fun _ hc => isLineEnd_of_getLast?_line hc]

theorem tokenize_line_lineFeed (h : Header) :
    tokenize (h.line ++ ['\n']) = tokensOf (h.line ++ ['\n']) h.line := by
  rw [tokenize, dropTrailing_lineFeed fun _ hc => isLineEnd_of_getLast?_line hc]

theorem ofLine_of_tokenize {l : List Char} {name : Name} {type : ElementType} {count : Nat}
    (hcount : count < UInt64.size) (h : tokenize l =
      .ok [.quoted name.padded, .bare (decimal count), .quoted type.code]) :
    ofLine l = .ok ⟨name.val, type, count⟩ := by
  simp only [ofLine, h, ok_bind, Name.check_padded, readCount?_decimal hcount, type.trimEnd_code,
    typeOf, ElementType.ofCode?_code, pure_eq]

theorem ofLine_line {name : Name} (hname : '\'' ∉ name.val.toList) (type : ElementType)
    {count : Nat} (hcount : count < UInt64.size) :
    ofLine (line ⟨name.val, type, count⟩ ++ ['\n']) = .ok ⟨name.val, type, count⟩ := by
  refine ofLine_of_tokenize hcount ?_
  rw [tokenize_line_lineFeed, tokensOf_line hname]

theorem trim_line_ne_nil (h : Header) : trim (h.line ++ ['\n']) ≠ [] := by
  have hstart : trimStart (h.line ++ ['\n']) = (h.line ++ ['\n']).drop 1 := rfl
  rw [trim, hstart]
  refine dropTrailing_ne_nil (c := '\'') ?_ (by decide)
  rw [line]
  exact List.mem_cons_self

theorem notMem_padded_of_spells {name : Name} {type : ElementType} {count : Nat}
    {first word last : List Char}
    (h : Spells [.quoted first, .bare word, .quoted last] (line ⟨name.val, type, count⟩)) :
    '\'' ∉ name.padded := by
  intro hquote
  obtain ⟨front, back, hpadded, hfront⟩ := List.eq_append_cons_of_mem hquote
  rw [line_eq, hpadded] at h
  cases h with
  | @quoted _ _ rest _ htrim hfirst h =>
    have hrest : '\'' :: (first ++ '\'' :: rest) = '\'' :: (front ++ '\'' :: (back ++ '\'' :: ' ' ::
        (padLeft 11 ' ' (decimal count) ++ ' ' :: '\'' :: (type.code ++ ['\''])))) := by
      rw [← htrim, List.append_assoc]
      rfl
    obtain ⟨-, rfl⟩ := eq_of_append_cons hfirst hfront (List.cons.inj hrest).2
    have hblank := @Spells.forall_isBlank word last (back ++ ['\''])
      (padLeft 11 ' ' (decimal count) ++ [' ']) type.code (by simpa using h)
      (fun hmem => absurd (type.isBare_code.isQuote hmem) (by decide)) ⟨'\'', by simp, by decide⟩
    obtain ⟨d, hd⟩ := List.exists_mem_of_ne_nil _ (isBare_decimal count).ne_nil
    have hdigit := (isBare_decimal count).isBlank hd
    rw [hblank d (by simp [padLeft, hd])] at hdigit
    cases hdigit

theorem ofLine_of_tokens {l : List Char} {tokens : List Token} (h : tokenize l = .ok tokens)
    (hfields : ∀ name count code, tokens ≠ [.quoted name, .bare count, .quoted code]) :
    ofLine l = reject (.headerLine (String.ofList (trimEnd l))) := by
  rw [ofLine, h, ok_bind]
  split
  · next name count code => exact absurd rfl (hfields name count code)
  · rfl

/-- A header line is read as its header if and only if there is no quote in the name. With one the
line is refused, for quotes that do not close or for its fields, and never read as another header.
-/
theorem ofLine_line_iff (name : Name) (type : ElementType) {count : Nat}
    (hcount : count < UInt64.size) :
    let h : Header := ⟨name.val, type, count⟩
    (ofLine h.line = .ok h ↔ '\'' ∉ name.val.toList) ∧
      ('\'' ∈ name.val.toList → ofLine h.line = reject (.openQuote (String.ofList h.line)) ∨
        ofLine h.line = reject (.headerLine (String.ofList h.line))) := by
  intro h
  have hrefused : '\'' ∈ name.val.toList →
      ofLine h.line = reject (.openQuote (String.ofList h.line)) ∨
        ofLine h.line = reject (.headerLine (String.ofList h.line)) := by
    intro hquote
    rcases tokensOf_cases h.line h.line with ⟨tokens, htokens⟩ | hopen
    · rw [← tokenize_line] at htokens
      have hfields := ofLine_of_tokens htokens fun first count' code heq => by
        rw [tokenize_line, heq] at htokens
        exact notMem_padded_of_spells (spells_of_tokensOf htokens) (List.mem_append_left _ hquote)
      rw [trimEnd_line] at hfields
      exact .inr hfields
    · refine .inl ?_
      rw [ofLine, tokenize_line, hopen]
      rfl
  refine ⟨⟨fun hread hquote => ?_, fun hname => ?_⟩, hrefused⟩
  · rcases hrefused hquote with hopen | hfields
    · rw [hread] at hopen
      cases hopen
    · rw [hread] at hfields
      cases hfields
  · exact ofLine_of_tokenize hcount (by rw [tokenize_line, tokensOf_line hname])

/-- Digits and blanks in a name are read back, and so is the largest count; a quote is not. -/
theorem ofLine_line_iff_quote :
    let plain : Header := ⟨"12 \"S\"", .fixed ⟨16, by decide⟩, 18446744073709551615⟩
    let quoted : Header := ⟨"A'B", .int, 1⟩
    ofLine plain.line = .ok plain ∧ ofLine quoted.line ≠ .ok quoted ∧
      (ofLine quoted.line = reject (.openQuote (String.ofList quoted.line)) ∨
        ofLine quoted.line = reject (.headerLine (String.ofList quoted.line))) := by
  intro plain quoted
  have hplain := @ofLine_line_iff ⟨"12 \"S\"", by decide⟩ plain.type plain.count (by decide)
  have hquoted := @ofLine_line_iff ⟨"A'B", by decide⟩ quoted.type quoted.count (by decide)
  exact ⟨hplain.1.2 (by decide), fun hread => hquoted.1.1 hread (by decide), hquoted.2 (by decide)⟩

end Header

end Reservoir
