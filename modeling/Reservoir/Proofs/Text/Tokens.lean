import Mathlib.Data.List.TakeWhile
import Reservoir.Proofs.Outcome
import Reservoir.Proofs.Text.Ascii
import Reservoir.Proofs.Text.Digits
import Reservoir.Text.Token

/-!
Lines that were put together from fields are cut into the same fields: bare words with blanks
before them, and quoted text without quotes in it. Tokens that were read stand in their line one
after another, with blanks between them.
-/

namespace Reservoir.Text

open Outcome

def isPlain (c : Char) : Bool := isAscii c && !isBlank c && !isQuote c

structure IsBare (word : List Char) : Prop where
  ne_nil : word ≠ []
  plain : ∀ c ∈ word, isPlain c

namespace IsBare

variable {word : List Char} {c : Char}

theorem isAscii (h : IsBare word) (hc : c ∈ word) : isAscii c := by
  have hplain := h.plain c hc
  simp only [isPlain, Bool.and_eq_true] at hplain
  exact hplain.1.1

theorem isBlank (h : IsBare word) (hc : c ∈ word) : isBlank c = false := by
  have hplain := h.plain c hc
  simp only [isPlain, Bool.and_eq_true, Bool.not_eq_true'] at hplain
  exact hplain.1.2

theorem isQuote (h : IsBare word) (hc : c ∈ word) : isQuote c = false := by
  have hplain := h.plain c hc
  simp only [isPlain, Bool.and_eq_true, Bool.not_eq_true'] at hplain
  exact hplain.2

theorem of_all (hne : word ≠ []) (h : word.all isPlain) : IsBare word :=
  ⟨hne, List.all_eq_true.1 h⟩

end IsBare

theorem isPlain_digitChar : ∀ d < 10, isPlain (digitChar d) := by
  decide

theorem isBare_decimal (n : Nat) : IsBare (decimal n) := by
  refine ⟨?_, fun c hc => ?_⟩
  · simp [decimal, digits_ne_nil]
  · obtain ⟨d, hd, rfl⟩ := mem_decimal hc
    exact isPlain_digitChar d hd

theorem trimStart_cons_of_blank {c : Char} (h : isBlank c) (cs : List Char) :
    trimStart (c :: cs) = trimStart cs := by
  simp [trimStart, h]

theorem trimStart_replicate (n : Nat) (cs : List Char) :
    trimStart (List.replicate n ' ' ++ cs) = trimStart cs := by
  induction n with
  | zero => rfl
  | succ n ih => rw [List.replicate_succ, List.cons_append, trimStart_cons_of_blank (by rfl), ih]

theorem trimStart_of_not_blank {c : Char} (h : isBlank c = false) (cs : List Char) :
    trimStart (c :: cs) = c :: cs := by
  simp [trimStart, h]

theorem tokensOf_nil {rest : List Char} (h : trimStart rest = []) (line : List Char) :
    tokensOf line rest = .ok [] := by
  rw [tokensOf]
  split
  · rfl
  · next c cs hcs => rw [h] at hcs; cases hcs

def StartsBlank (rest : List Char) : Prop := ∀ c, rest.head? = some c → isBlank c

theorem takeWhile_of_startsBlank {rest : List Char} (h : StartsBlank rest) :
    rest.takeWhile (!isBlank ·) = [] ∧ rest.dropWhile (!isBlank ·) = rest := by
  cases rest with
  | nil => exact ⟨rfl, rfl⟩
  | cons c rest =>
    have hc : isBlank c := h c rfl
    simp [hc]

theorem tokensOf_bare {word after rest : List Char} (hword : IsBare word)
    (hafter : StartsBlank after) (h : trimStart rest = word ++ after) (line : List Char) :
    tokensOf line rest = (tokensOf line after >>= fun tokens => .ok (.bare word :: tokens)) := by
  obtain ⟨c, cs, rfl⟩ := List.exists_cons_of_ne_nil hword.ne_nil
  have htail : ∀ d ∈ cs, (!isBlank d) = true := by
    intro d hd
    rw [hword.isBlank (List.mem_cons_of_mem _ hd)]
    rfl
  obtain ⟨htake, hdrop⟩ := takeWhile_of_startsBlank hafter
  rw [tokensOf]
  split
  · next hcs => rw [h] at hcs; cases hcs
  · next d ds hcs =>
    rw [h, List.cons_append, List.cons.injEq] at hcs
    obtain ⟨rfl, rfl⟩ := hcs
    have hquote : ¬isQuote c = true := by simp [hword.isQuote List.mem_cons_self]
    rw [if_neg hquote, List.takeWhile_append_of_pos htail, List.dropWhile_append_of_pos htail,
      htake, hdrop, List.append_nil]
    rfl

theorem tokensOf_quoted {text after rest : List Char} (htext : ∀ c ∈ text, isQuote c = false)
    (h : trimStart rest = '\'' :: text ++ '\'' :: after) (line : List Char) :
    tokensOf line rest = (tokensOf line after >>= fun tokens => .ok (.quoted text :: tokens)) := by
  have hplain : ∀ d ∈ text, (!isQuote d) = true := by
    intro d hd
    rw [htext d hd]
    rfl
  have htake : (text ++ '\'' :: after).takeWhile (!isQuote ·) = text := by
    rw [List.takeWhile_append_of_pos hplain, List.takeWhile_cons, if_neg (by decide),
      List.append_nil]
  have hdrop : (text ++ '\'' :: after).dropWhile (!isQuote ·) = '\'' :: after := by
    rw [List.dropWhile_append_of_pos hplain, List.dropWhile_cons, if_neg (by decide)]
  rw [tokensOf]
  split
  · next hcs => rw [h] at hcs; cases hcs
  · next d ds hcs =>
    rw [h, List.cons_append, List.cons.injEq] at hcs
    obtain ⟨rfl, rfl⟩ := hcs
    rw [if_pos (by rfl)]
    split
    · next hnil => rw [hdrop] at hnil; cases hnil
    · next q rest' hrest =>
      rw [hdrop, List.cons.injEq] at hrest
      obtain ⟨-, rfl⟩ := hrest
      rw [htake]
      rfl

/-- The text of a field: a word with at least one blank before it. -/
structure IsField (text word : List Char) : Prop where
  isBare : IsBare word
  text_eq : ∃ n, text = ' ' :: List.replicate n ' ' ++ word

theorem IsField.trimStart_append {text word : List Char} (h : IsField text word)
    (after : List Char) : trimStart (text ++ after) = word ++ after := by
  obtain ⟨n, htext⟩ := h.text_eq
  obtain ⟨c, cs, hcs⟩ := List.exists_cons_of_ne_nil h.isBare.ne_nil
  have hc : isBlank c = false := h.isBare.isBlank (by rw [hcs]; exact List.mem_cons_self)
  rw [htext, List.cons_append, List.cons_append, trimStart_cons_of_blank (by rfl),
    List.append_assoc, trimStart_replicate, hcs, List.cons_append, trimStart_of_not_blank hc]

theorem isField_padLeft {word : List Char} (h : IsBare word) (width : Nat) :
    IsField (' ' :: padLeft width ' ' word) word :=
  ⟨h, _, rfl⟩

theorem IsField.getLast? {text word : List Char} (h : IsField text word) {c : Char}
    (hc : text.getLast? = some c) : isBlank c = false := by
  obtain ⟨n, htext⟩ := h.text_eq
  have hlast := List.getLast?_eq_some_getLast h.isBare.ne_nil
  rw [htext, List.getLast?_append, hlast, Option.some_or] at hc
  cases hc
  exact h.isBare.isBlank (List.getLast_mem _)

theorem getLast?_flatMap {α : Type} {field word : α → List Char} {xs : List α}
    (h : ∀ x ∈ xs, IsField (field x) (word x)) {c : Char}
    (hc : (xs.flatMap field).getLast? = some c) : isBlank c = false := by
  induction xs with
  | nil => cases hc
  | cons x xs ih =>
    simp only [List.mem_cons, forall_eq_or_imp] at h
    rw [List.flatMap_cons, List.getLast?_append] at hc
    cases hback : (xs.flatMap field).getLast? with
    | none =>
      rw [hback, Option.none_or] at hc
      exact h.1.getLast? hc
    | some d =>
      rw [hback, Option.some_or] at hc
      exact ih h.2 (hback.trans hc)

theorem tokensOf_flatMap {α : Type} {field word : α → List Char} {xs : List α}
    (h : ∀ x ∈ xs, IsField (field x) (word x)) (line : List Char) :
    tokensOf line (xs.flatMap field) = .ok (xs.map fun x => .bare (word x)) := by
  induction xs with
  | nil => exact tokensOf_nil rfl line
  | cons x xs ih =>
    simp only [List.mem_cons, forall_eq_or_imp] at h
    have hafter : StartsBlank (xs.flatMap field) := by
      intro c hc
      cases xs with
      | nil => cases hc
      | cons y ys =>
        obtain ⟨n, hy⟩ := (h.2 y List.mem_cons_self).text_eq
        rw [List.flatMap_cons, hy, List.cons_append, List.cons_append, List.head?_cons] at hc
        cases hc
        rfl
    rw [List.flatMap_cons, tokensOf_bare h.1.isBare hafter (h.1.trimStart_append _), ih h.2]
    rfl

theorem dropTrailing_lineFeed {cs : List Char}
    (h : ∀ c, cs.getLast? = some c → isLineEnd c = false) :
    dropTrailing isLineEnd (cs ++ ['\n']) = cs := by
  rw [dropTrailing_concat, if_pos (by rfl), dropTrailing_of_getLast? h]

theorem isLineEnd_of_not_blank {c : Char} (h : isBlank c = false) : isLineEnd c = false := by
  cases hend : isLineEnd c with
  | false => rfl
  | true =>
    simp only [isLineEnd, Bool.or_eq_true, beq_iff_eq] at hend
    rcases hend with rfl | rfl
    · exact absurd h (by decide)
    · exact absurd h (by decide)

theorem eq_of_append_cons {c : Char} {xs ys xs' ys' : List Char} (hx : c ∉ xs) (hy : c ∉ ys)
    (h : xs ++ c :: xs' = ys ++ c :: ys') : xs = ys ∧ xs' = ys' := by
  have hcut : ∀ zs zs' : List Char, c ∉ zs → (zs ++ c :: zs').takeWhile (· != c) = zs := by
    intro zs zs' hz
    have hpass : ∀ d ∈ zs, (d != c) = true :=
      fun d hd => bne_iff_ne.2 fun heq => hz (heq ▸ hd)
    rw [List.takeWhile_append_of_pos hpass, List.takeWhile_cons_of_neg (by simp), List.append_nil]
  have hfront : xs = ys := by rw [← hcut xs xs' hx, h, hcut ys ys' hy]
  subst hfront
  exact ⟨rfl, (List.cons.inj (List.append_cancel_left h)).2⟩

/-- Tokens as they stand in a text, with blanks before, between and behind them. -/
inductive Spells : List Token → List Char → Prop
  | nil {rest : List Char} (htrim : trimStart rest = []) : Spells [] rest
  | bare {rest word after : List Char} {tokens : List Token}
      (htrim : trimStart rest = word ++ after) (hword : ∀ c ∈ word, isBlank c = false)
      (h : Spells tokens after) : Spells (.bare word :: tokens) rest
  | quoted {rest text after : List Char} {tokens : List Token}
      (htrim : trimStart rest = '\'' :: (text ++ '\'' :: after)) (htext : '\'' ∉ text)
      (h : Spells tokens after) : Spells (.quoted text :: tokens) rest

theorem spells_of_tokensOf {line rest : List Char} {tokens : List Token}
    (h : tokensOf line rest = .ok tokens) : Spells tokens rest := by
  fun_induction tokensOf line rest generalizing tokens with
  | case1 rest htrim =>
    cases h
    exact .nil htrim
  | case2 => cases h
  | case3 rest c cs htrim hquote q after hcut ih =>
    obtain ⟨back, hback, h⟩ := bind_eq_ok.1 h
    cases h
    have hq : q = '\'' := by
      have hstop := List.head?_dropWhile_not (!isQuote ·) cs
      rw [hcut] at hstop
      simpa [isQuote] using hstop
    have htext : '\'' ∉ cs.takeWhile (!isQuote ·) := fun hmem => by
      simpa [isQuote] using List.mem_takeWhile_imp hmem
    refine .quoted ?_ htext (ih hback)
    rw [htrim, eq_of_beq hquote]
    conv_lhs => rw [← List.takeWhile_append_dropWhile (p := (!isQuote ·)) (l := cs), hcut, hq]
  | case4 rest c cs htrim hquote ih =>
    obtain ⟨back, hback, h⟩ := bind_eq_ok.1 h
    cases h
    have hc : isBlank c = false := by
      have hstop := List.head?_dropWhile_not isBlank rest
      rw [show rest.dropWhile isBlank = c :: cs from htrim] at hstop
      exact hstop
    refine .bare ?_ ?_ (ih hback)
    · rw [htrim, List.cons_append, List.takeWhile_append_dropWhile]
    · intro d hd
      rcases List.mem_cons.1 hd with rfl | hd
      · exact hc
      · simpa using List.mem_takeWhile_imp hd

/-- Only quoted text without an end keeps a line from being cut. -/
theorem tokensOf_cases (line rest : List Char) :
    (∃ tokens, tokensOf line rest = .ok tokens) ∨
      tokensOf line rest = reject (.openQuote (String.ofList line)) := by
  fun_induction tokensOf line rest with
  | case1 => exact .inl ⟨[], rfl⟩
  | case2 => exact .inr rfl
  | case3 rest c cs htrim hquote q after hcut ih =>
    rcases ih with ⟨tokens, htokens⟩ | hopen
    · exact .inl ⟨_, by rw [htokens]; rfl⟩
    · exact .inr (by rw [hopen]; rfl)
  | case4 rest c cs htrim hquote ih =>
    rcases ih with ⟨tokens, htokens⟩ | hopen
    · exact .inl ⟨_, by rw [htokens]; rfl⟩
    · exact .inr (by rw [hopen]; rfl)

theorem forall_isBlank_of_word {front word gap before after : List Char}
    (hfront : ∀ c ∈ front, isBlank c) (hword : ∀ c ∈ word, isBlank c = false)
    (hgap : ∀ c ∈ gap, isBlank c) (h : front ++ (word ++ gap) = before ++ ' ' :: after)
    (hbefore : ∃ c ∈ before, isBlank c = false) : ∀ c ∈ after, isBlank c := by
  obtain ⟨mark, hmark, hplain⟩ := hbefore
  rcases List.append_eq_append_iff.1 h with ⟨inner, rfl, hinner⟩ | ⟨inner, rfl, -⟩
  · rcases List.append_eq_append_iff.1 hinner with ⟨blanks, rfl, rfl⟩ | ⟨blanks, rfl, hafter⟩
    · exact fun c hc => hgap c (List.mem_append_right _ (List.mem_cons_of_mem _ hc))
    · cases blanks with
      | nil =>
        obtain rfl : ' ' :: after = gap := hafter
        exact fun c hc => hgap c (List.mem_cons_of_mem _ hc)
      | cons d blanks =>
        obtain ⟨rfl, -⟩ := List.cons.inj hafter
        exact absurd (hword ' ' (List.mem_append_right _ List.mem_cons_self)) (by decide)
  · have hblank := hfront mark (List.mem_append_left _ hmark)
    rw [hplain] at hblank
    cases hblank

theorem eq_of_quoted_end {front front' text text' after : List Char} (htext : '\'' ∉ text)
    (htext' : '\'' ∉ text') (hafter : '\'' ∉ after)
    (h : front ++ '\'' :: (text ++ '\'' :: after) = front' ++ '\'' :: (text' ++ ['\''])) :
    front = front' := by
  have hback := congrArg List.reverse h
  simp only [List.reverse_append, List.reverse_cons, List.append_assoc, List.singleton_append,
    List.reverse_nil, List.nil_append] at hback
  have hlast := eq_of_append_cons (mt List.mem_reverse.1 hafter) List.not_mem_nil hback
  have hfirst := eq_of_append_cons (mt List.mem_reverse.1 htext) (mt List.mem_reverse.1 htext')
    hlast.2
  exact List.reverse_inj.1 hfirst.2

theorem exists_blanks_append (cs : List Char) :
    ∃ blanks, (∀ c ∈ blanks, isBlank c) ∧ cs = blanks ++ trimStart cs :=
  ⟨cs.takeWhile isBlank, fun _ hc => List.mem_takeWhile_imp hc,
    List.takeWhile_append_dropWhile.symm⟩

theorem notMem_of_forall_isBlank {cs : List Char} (h : ∀ c ∈ cs, isBlank c) : '\'' ∉ cs :=
  fun hmem => absurd (h '\'' hmem) (by decide)

theorem Spells.forall_isBlank {word last before after text : List Char}
    (h : Spells [.bare word, .quoted last] (before ++ ' ' :: after ++ '\'' :: (text ++ ['\''])))
    (htext : '\'' ∉ text) (hbefore : ∃ c ∈ before, isBlank c = false) : ∀ c ∈ after, isBlank c := by
  obtain _ | @⟨_, _, rest, _, hfirst, hword, h⟩ := h
  obtain _ | _ | @⟨_, _, stop, _, hquoted, hlast, h⟩ := h
  obtain ⟨front, hfront, hstart⟩ :=
    exists_blanks_append (before ++ ' ' :: after ++ '\'' :: (text ++ ['\'']))
  obtain ⟨gap, hgap, hrest⟩ := exists_blanks_append rest
  cases h with
  | nil hend =>
    have hstop : '\'' ∉ stop := notMem_of_forall_isBlank (List.dropWhile_eq_nil_iff.1 hend)
    rw [hfirst, hrest, hquoted] at hstart
    have hcut : front ++ (word ++ gap) = before ++ ' ' :: after := by
      refine eq_of_quoted_end hlast htext hstop (Eq.trans ?_ hstart.symm)
      simp only [List.append_assoc]
    exact forall_isBlank_of_word hfront hword hgap hcut hbefore

end Reservoir.Text
