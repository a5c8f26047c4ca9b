import Mathlib.Data.List.Basic
import Reservoir.Proofs.Summary.Interpolation

/-!
Rates and totals. No name of a rate starts the name of a total or goes on from one, so one place of
a keyword never has both. A flow between regions may have either at two places, but then the names
would have to share a letter that they do not share. So the values of a total are never taken for
those of a rate.
-/

namespace Reservoir

open Outcome

namespace Text

variable {part : String} {offset : Nat} {cs front tail : List Char} {c : Char}

theorem continuesWith_eq_true : continuesWith part offset cs = true ↔
    ∃ front tail, splitAtByte? offset cs = some (front, tail) ∧ part.toList <+: tail := by
  unfold continuesWith
  cases splitAtByte? offset cs with
  | none => simp
  | some cut => simp [Prod.ext_iff, and_assoc]

theorem splitAtByte?_succ (hc : c.utf8Size = 1)
    (h : splitAtByte? offset cs = some (front, c :: tail)) :
    splitAtByte? (offset + 1) cs = some (front ++ [c], tail) := by
  fun_induction splitAtByte? offset cs generalizing front with
  | case1 cs =>
    cases h
    simp [splitAtByte?, hc]
  | case2 => cases h
  | case3 offset first cs hfits ih =>
    obtain ⟨⟨front', tail'⟩, hsplit, heq⟩ := Option.map_eq_some_iff.1 h
    cases heq
    have hnext := ih hsplit
    rw [splitAtByte?, if_pos (by omega),
      show offset + 1 + 1 - first.utf8Size = offset + 1 - first.utf8Size + 1 by omega, hnext]
    rfl
  | case4 => cases h

theorem continuesWith_tail (hc : c.utf8Size = 1)
    (h : continuesWith (String.ofList (c :: tail)) offset cs = true) :
    continuesWith (String.ofList tail) (offset + 1) cs = true := by
  obtain ⟨front, found, hsplit, back, rfl⟩ := continuesWith_eq_true.1 h
  rw [String.toList_ofList, List.cons_append] at hsplit
  refine continuesWith_eq_true.2 ⟨_, _, splitAtByte?_succ hc hsplit, ?_⟩
  rw [String.toList_ofList]
  exact List.prefix_append tail back

end Text

namespace Quantity

variable {names others : List String} {offset : Nat} {keyword : String}

def Apart (names others : List String) : Prop :=
  ∀ a ∈ names, ∀ b ∈ others, ¬a.toList <+: b.toList ∧ ¬b.toList <+: a.toList

instance (names others : List String) : Decidable (Apart names others) :=
  inferInstanceAs (Decidable (∀ a ∈ names, ∀ b ∈ others, _ ∧ _))

theorem namedAt_eq_true : namedAt offset names keyword = true ↔
    ∃ name ∈ names, Text.continuesWith name offset keyword.toList = true := by
  rw [namedAt, List.any_eq_true]

theorem Apart.not_namedAt (h : Apart names others) (hname : namedAt offset names keyword = true) :
    namedAt offset others keyword = false := by
  rw [Bool.eq_false_iff]
  intro hother
  obtain ⟨a, ha, hname⟩ := namedAt_eq_true.1 hname
  obtain ⟨b, hb, hother⟩ := namedAt_eq_true.1 hother
  obtain ⟨front, tail, hsplit, hprefix⟩ := Text.continuesWith_eq_true.1 hname
  obtain ⟨front', tail', hsplit', hprefix'⟩ := Text.continuesWith_eq_true.1 hother
  cases hsplit.symm.trans hsplit'
  obtain ⟨hab, hba⟩ := h a ha b hb
  rcases List.prefix_or_prefix_of_prefix hprefix hprefix' with h | h
  · exact hab h
  · exact hba h

theorem apart_totals : Apart rates totals := by decide +kernel

theorem apart_segmentTotals : Apart segmentRates segmentTotals := by decide +kernel

/-- Two letters at one place and two others at the next one would have to share a letter. -/
theorem not_namedAt_succ {a b c d : Char} (ha : a.utf8Size = 1) (hbc : b ≠ c)
    (hname : namedAt offset [String.ofList [a, b]] keyword = true) :
    namedAt (offset + 1) [String.ofList [c, d]] keyword = false := by
  have hnext : namedAt (offset + 1) [String.ofList [b]] keyword = true := by
    obtain ⟨name, hmem, hname⟩ := namedAt_eq_true.1 hname
    rw [List.mem_singleton.1 hmem] at hname
    exact namedAt_eq_true.2 ⟨_, List.mem_singleton_self _, Text.continuesWith_tail ha hname⟩
  refine Apart.not_namedAt (fun x hx y hy => ?_) hnext
  rw [List.mem_singleton.1 hx, List.mem_singleton.1 hy, String.toList_ofList, String.toList_ofList]
  simp [hbc, hbc.symm]

theorem apart_flows : Apart ["FR"] ["FT"] := by decide

end Quantity

namespace VariableClass

open Quantity

/-- The two kinds of flows between regions at the same or at different places. -/
theorem not_flow_and_flow {keyword : String} {m n : Nat} (hm : m ∈ [2, 3]) (hn : n ∈ [2, 3])
    (hrate : namedAt m ["FR"] keyword = true) : namedAt n ["FT"] keyword = false := by
  have hnext : namedAt 3 ["FR"] keyword = true → namedAt 2 ["FT"] keyword = false := by
    intro hrate
    rw [Bool.eq_false_iff]
    intro htotal
    have hnot : namedAt 3 ["FR"] keyword = false :=
      not_namedAt_succ (a := 'F') (b := 'T') (c := 'F') (d := 'R') rfl (by decide) htotal
    exact Bool.false_ne_true (hnot.symm.trans hrate)
  rcases List.mem_pair.1 hm with rfl | rfl <;> rcases List.mem_pair.1 hn with rfl | rfl
  · exact apart_flows.not_namedAt hrate
  · exact not_namedAt_succ (a := 'F') (b := 'R') (c := 'F') (d := 'T') rfl (by decide) hrate
  · exact hnext hrate
  · exact apart_flows.not_namedAt hrate

theorem isTotal_eq_false {c : VariableClass} {keyword : String} (h : c.isRate keyword = true) :
    c.isTotal keyword = false := by
  cases c with
  | localWell | localCompletion => exact apart_totals.not_namedAt h
  | well | group | field | region | completion => exact apart_totals.not_namedAt h
  | segment => exact apart_segmentTotals.not_namedAt h
  | regionToRegion =>
    obtain ⟨m, hm, hrate⟩ := List.any_eq_true.1 h
    rw [isTotal, List.any_eq_false]
    intro n hn
    rw [not_flow_and_flow hm hn hrate]
    exact Bool.false_ne_true
  | network | aquifer | block | localBlock | misc => rfl

end VariableClass

theorem Variable.isRate_eq_false {v : Variable} (h : v.isTotal = true) : v.isRate = false := by
  rw [Bool.eq_false_iff]
  exact fun hrate => Bool.false_ne_true ((VariableClass.isTotal_eq_false hrate).symm.trans h)

namespace Series

theorem interpolate_of_not_rate {s : Series} {disk : Disk} {position m : Nat} {days before after :
    Double} {v : Variable} (hv : s.catalog.getVariable position = .ok v) (hrate : v.isRate = false)
    (hindex : s.ministepAtTime days = .ok (m + 1)) (hbefore : s.times[m]? = some before)
    (hafter : s.times[m + 1]? = some after) (hlater : before.lt after = true)
    (hsame : after.same days = false) :
    s.interpolate disk position days =
      (s.valueAt disk position m >>= fun x => s.valueAt disk position (m + 1) >>= fun y =>
        .ok (between before after days x y)) := by
  have hspan := Double.not_span_le_zero hlater
  rw [interpolate, hindex, ok_bind, timeAt_of_getElem? hafter, ok_bind, if_neg (by simp [hsame]),
    hv, ok_bind, hrate, if_neg Bool.false_ne_true, Nat.add_sub_cancel, timeAt_of_getElem? hbefore,
    ok_bind, if_neg hspan]
  rfl

/-- No keyword names both a rate and a total, whatever class it is taken for, and so no variable is
both. A total is then never looked up stepwise: strictly between two ministeps its value comes from
both of them. -/
theorem interpolate_of_total :
    (∀ (c : VariableClass) (keyword : String),
      ¬(c.isRate keyword = true ∧ c.isTotal keyword = true)) ∧
    (∀ v : Variable, ¬(v.isRate = true ∧ v.isTotal = true)) ∧
    ∀ (s : Series) (disk : Disk) (position : Nat) (v : Variable),
      s.catalog.getVariable position = .ok v → v.isTotal = true →
      ∀ (m : Nat) (days before after : Double), s.ministepAtTime days = .ok (m + 1) →
        s.times[m]? = some before → s.times[m + 1]? = some after → before.lt after = true →
        after.same days = false →
        s.interpolate disk position days =
          (s.valueAt disk position m >>= fun x => s.valueAt disk position (m + 1) >>= fun y =>
            .ok (between before after days x y)) := by
  refine ⟨fun c keyword h => ?_, fun v h => ?_, fun s disk position v hv htotal m days before after
    hindex hbefore hafter hlater hsame => ?_⟩
  · exact Bool.false_ne_true ((VariableClass.isTotal_eq_false h.1).symm.trans h.2)
  · exact Bool.false_ne_true ((VariableClass.isTotal_eq_false h.1).symm.trans h.2)
  · exact interpolate_of_not_rate hv (Variable.isRate_eq_false htotal) hindex hbefore hafter hlater
      hsame

/-- Halfway from the first day to the second one a total is halfway from 1 to 3, where the value of
the second day would be 3. -/
theorem interpolate_of_total_halfway :
    let double (n : UInt64) : Double := ⟨n⟩
    let one := double 0x3ff0000000000000
    let oneAndHalf := double 0x3ff8000000000000
    let two := double 0x4000000000000000
    let three := double 0x4008000000000000
    let total : Variable := ⟨"FOPT", none, 0, "SM3", none, none⟩
    let catalog : SummaryCatalog :=
      ⟨[total], ⟨1, 1, 1⟩, none, none, .gregorian, .midnight ⟨2000, 1, 1⟩, ":"⟩
    let file : KeywordFile := ⟨"CASE.UNSMRY", .binary .big, 0, .empty⟩
    let ministep (n : Nat) (days : Double) : Ministep :=
      ⟨file, ⟨"PARAMS", .double, 1, 32 * n, 32 * n + 24, n⟩, n, 1, days⟩
    let s : Series := ⟨catalog, [ministep 0 one, ministep 1 two], [(0, [one, three])]⟩
    s.catalog.getVariable 0 = .ok total ∧ total.isTotal = true ∧
      s.ministepAtTime oneAndHalf = .ok 1 ∧ s.valueAtTime ⟨[]⟩ 0 oneAndHalf = .ok three ∧
      s.interpolate ⟨[]⟩ 0 oneAndHalf = .ok two := by
  intro double one oneAndHalf two three total catalog file ministep s
  have hvariable : s.catalog.getVariable 0 = .ok total := rfl
  have htotal : total.isTotal = true := by decide +kernel
  have hindex : s.ministepAtTime oneAndHalf = .ok 1 := by decide +kernel
  have hstepwise : s.valueAtTime ⟨[]⟩ 0 oneAndHalf = .ok three := by decide +kernel
  obtain ⟨-, -, hinterpolate⟩ := interpolate_of_total
  refine ⟨hvariable, htotal, hindex, hstepwise, ?_⟩
  refine (hinterpolate s ⟨[]⟩ 0 total hvariable htotal 0 oneAndHalf one two hindex rfl rfl
    (by decide +kernel) (by decide +kernel)).trans ?_
  decide +kernel

end Series

end Reservoir
