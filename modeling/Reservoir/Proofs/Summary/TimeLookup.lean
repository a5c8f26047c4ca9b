import Reservoir.Proofs.Summary.Columns
import Reservoir.Proofs.Summary.Increasing

/-!
Lookup by time. Where the times of a series are numbers they increase, so the ones before a given
time come first, and bisection ends where they do.
-/

namespace Reservoir

open Outcome

namespace Double

variable {x y : Double}

theorem le_eq_true :
    x.le y = true ↔ ∃ a b, x.place? = some a ∧ y.place? = some b ∧ a ≤ b := by
  simp only [le, compareBy_eq_true, decide_eq_true_eq]

theorem isNaN_eq_false : x.isNaN = false ↔ ∃ a, x.place? = some a := by
  rw [isNaN, Option.isNone_eq_false_iff, Option.isSome_iff_exists]

theorem isNaN_of_le (h : x.le y = true) : x.isNaN = false ∧ y.isNaN = false := by
  obtain ⟨a, b, hx, hy, -⟩ := le_eq_true.1 h
  exact ⟨isNaN_eq_false.2 ⟨a, hx⟩, isNaN_eq_false.2 ⟨b, hy⟩⟩

theorem le_of_lt (h : x.lt y = true) : x.le y = true := by
  obtain ⟨a, b, hx, hy, hab⟩ := lt_eq_true.1 h
  exact le_eq_true.2 ⟨a, b, hx, hy, Int.le_of_lt hab⟩

theorem le_refl (h : x.isNaN = false) : x.le x = true := by
  obtain ⟨a, hx⟩ := isNaN_eq_false.1 h
  exact le_eq_true.2 ⟨a, a, hx, hx, Int.le_refl a⟩

theorem lt_eq_false (hx : x.isNaN = false) (hy : y.isNaN = false) :
    x.lt y = false ↔ y.le x = true := by
  have h : y.le x = false ↔ x.lt y = true := by simp [le_eq_false, hx, hy]
  rw [← Bool.not_eq_true, ← h, Bool.not_eq_false]

end Double

/-- Place `m` is the first one whose time is at or after a given one. -/
structure FirstFrom (times : List Double) (days : Double) (m : Nat) : Prop where
  reached : ∃ t, times[m]? = some t ∧ days.le t = true
  earlier : ∀ n < m, ∃ t, times[n]? = some t ∧ t.lt days = true

/-- There are times, and a given one is not before the first or after the last of them. -/
def Spans (times : List Double) (days : Double) : Prop :=
  ∃ first last, times.head? = some first ∧ times.getLast? = some last ∧
    first.le days = true ∧ days.le last = true

abbrev Increasing (times : List Double) : Prop :=
  times.Pairwise fun before after => before.lt after = true

namespace Increasing

variable {times : List Double} {t t' : Double} {m n : Nat}

theorem lt_of_getElem? (h : Increasing times) (hlt : m < n) (ht : times[m]? = some t)
    (ht' : times[n]? = some t') : t.lt t' = true := by
  obtain ⟨hm, rfl⟩ := List.getElem?_eq_some_iff.1 ht
  obtain ⟨hn, rfl⟩ := List.getElem?_eq_some_iff.1 ht'
  exact List.pairwise_iff_getElem.1 h m n hm hn hlt

theorem le_of_getElem? (h : Increasing times) (hnumbers : ∀ t ∈ times, t.isNaN = false)
    (hle : m ≤ n) (ht : times[m]? = some t) (ht' : times[n]? = some t') : t.le t' = true := by
  rcases Nat.eq_or_lt_of_le hle with rfl | hlt
  · cases ht.symm.trans ht'
    exact Double.le_refl (hnumbers t (List.mem_of_getElem? ht))
  · exact Double.le_of_lt (h.lt_of_getElem? hlt ht ht')

theorem exists_divided (h : Increasing times) (days : Double) :
    ∃ before rest, times = before ++ rest ∧ (∀ t ∈ before, t.lt days = true) ∧
      ∀ t ∈ rest, t.lt days = false := by
  induction times with
  | nil => exact ⟨[], [], rfl, by simp, by simp⟩
  | cons t times ih =>
    obtain ⟨hall, hincreasing⟩ := List.pairwise_cons.1 h
    cases hlt : t.lt days with
    | true =>
      obtain ⟨before, rest, rfl, hbefore, hrest⟩ := ih hincreasing
      exact ⟨t :: before, rest, rfl, List.forall_mem_cons.2 ⟨hlt, hbefore⟩, hrest⟩
    | false =>
      refine ⟨[], t :: times, rfl, by simp, List.forall_mem_cons.2 ⟨hlt, fun t' ht' => ?_⟩⟩
      by_contra hlater
      rw [Double.lt_trans (hall t' ht') (Bool.eq_true_of_not_eq_false hlater)] at hlt
      cases hlt

end Increasing

namespace FirstFrom

variable {times : List Double} {days t : Double} {m n : Nat}

theorem unique (hm : FirstFrom times days m) (hn : FirstFrom times days n) : m = n := by
  have hnot : ∀ m n, FirstFrom times days m → FirstFrom times days n → ¬m < n := by
    intro m n hm hn hlt
    obtain ⟨t, ht, hle⟩ := hm.reached
    obtain ⟨t', ht', hbelow⟩ := hn.earlier m hlt
    cases ht.symm.trans ht'
    have hnan := Double.isNaN_of_le hle
    rw [(Double.lt_eq_false hnan.2 hnan.1).2 hle] at hbelow
    cases hbelow
  exact Nat.le_antisymm (Nat.not_lt.1 (hnot n m hn hm)) (Nat.not_lt.1 (hnot m n hm hn))

theorem of_getElem? (hincreasing : Increasing times) (hnumbers : ∀ t ∈ times, t.isNaN = false)
    (ht : times[m]? = some t) : FirstFrom times t m := by
  refine ⟨⟨t, ht, Double.le_refl (hnumbers t (List.mem_of_getElem? ht))⟩, fun n hn => ?_⟩
  have hlength : n < times.length := Nat.lt_trans hn (List.getElem?_eq_some_iff.1 ht).1
  have hthere : times[n]? = some times[n] := List.getElem?_eq_getElem hlength
  exact ⟨times[n], hthere, hincreasing.lt_of_getElem? hn hthere ht⟩

end FirstFrom

namespace Series

theorem bisect_eq {p : Nat → Bool} {start size m : Nat} (hstart : start ≤ m)
    (hend : m ≤ start + size) (hp : ∀ i < start + size, (p i = true ↔ i < m)) :
    bisect p start size = m := by
  fun_induction bisect p start size with
  | case1 start size hsize half ih =>
    have hhalf : half + half ≤ size := by omega
    have hmiddle := hp (start + half) (by omega)
    by_cases hfirst : p (start + half) = true
    · rw [dif_pos hfirst] at ih
      rw [if_pos hfirst]
      exact ih (Nat.le_of_lt (hmiddle.1 hfirst)) (by omega) fun i hi => hp i (by omega)
    · rw [dif_neg hfirst] at ih
      rw [if_neg hfirst]
      have hnot : m ≤ start + half := Nat.not_lt.1 (mt hmiddle.2 hfirst)
      exact ih hstart (by omega) fun i hi => hp i (by omega)
  | case2 start size hsize hone =>
    have hlt : start < m := (hp start (by omega)).1 hone.2
    omega
  | case3 start size hsize hone =>
    by_contra hne
    exact hone ⟨by omega, (hp start (by omega)).2 (by omega)⟩

variable {s : Series} {days t : Double} {m : Nat}

theorem bisect_times {before rest : List Double} (htimes : s.times = before ++ rest)
    (hbefore : ∀ t ∈ before, t.lt days = true) (hrest : ∀ t ∈ rest, t.lt days = false) :
    bisect (fun index => s.times[index]?.any (·.lt days)) 0 s.size = before.length := by
  have hsize : before.length + rest.length = s.size := by
    rw [← List.length_append, ← htimes, times, List.length_map, size]
  refine bisect_eq (Nat.zero_le _) (by omega) fun i hi => ?_
  rcases Nat.lt_or_ge i before.length with hlt | hge
  · rw [htimes, List.getElem?_append_left hlt, List.getElem?_eq_getElem hlt]
    exact iff_of_true (hbefore _ (List.getElem_mem hlt)) hlt
  · have hi' : i - before.length < rest.length := by omega
    rw [htimes, List.getElem?_append_right hge, List.getElem?_eq_getElem hi', Option.any_some,
      hrest _ (List.getElem_mem hi')]
    exact iff_of_false Bool.false_ne_true (Nat.not_lt.2 hge)

section Numbers

variable (hnumbers : ∀ t ∈ s.times, t.isNaN = false)

include hnumbers

theorem ministepAtTime_error_or_spans :
    (∃ index, s.ministepAtTime days = .error (.outOfRange .simulatedTime index s.size)) ∨
      Spans s.times days := by
  unfold ministepAtTime
  split
  · next first last hfirst hlast =>
    split
    · exact .inl ⟨_, rfl⟩
    · next hnotFirst =>
      split
      · exact .inl ⟨_, rfl⟩
      · next hnot =>
        simp only [Bool.or_eq_true, not_or, Bool.not_eq_true] at hnotFirst hnot
        have hfirstNumber := hnumbers first (List.mem_of_mem_head? hfirst)
        have hlastNumber := hnumbers last (List.mem_of_getLast? hlast)
        exact .inr ⟨first, last, hfirst, hlast,
          (Double.lt_eq_false hnot.2 hfirstNumber).1 hnotFirst,
          (Double.lt_eq_false hlastNumber hnot.2).1 hnot.1⟩
  · exact .inl ⟨_, rfl⟩

variable (hincreasing : Increasing s.times)

include hincreasing

theorem exists_ministepAtTime (hspans : Spans s.times days) :
    ∃ m, s.ministepAtTime days = .ok m ∧ FirstFrom s.times days m := by
  obtain ⟨first, last, hfirst, hlast, hfrom, hto⟩ := hspans
  obtain ⟨before, rest, htimes, hbefore, hrest⟩ := hincreasing.exists_divided days
  have hdays := (Double.isNaN_of_le hto).1
  have hnotFirst := (Double.lt_eq_false hdays (Double.isNaN_of_le hfrom).1).2 hfrom
  have hnotLast := (Double.lt_eq_false (Double.isNaN_of_le hto).2 hdays).2 hto
  have hbisect := bisect_times htimes hbefore hrest
  refine ⟨before.length, ?_, ?_, fun n hn => ⟨before[n], ?_, hbefore _ (List.getElem_mem hn)⟩⟩
  · simp only [ministepAtTime, hfirst, hlast, hnotFirst, hnotLast, hdays, Bool.false_eq_true,
      Bool.or_self, if_false, hbisect]
  · -- The last time is not before the given one, so the times before it are not all.
    cases rest with
    | nil =>
      rw [htimes, List.append_nil] at hlast
      rw [hbefore last (List.mem_of_getLast? hlast)] at hnotLast
      cases hnotLast
    | cons t rest =>
      have ht : t.isNaN = false := hnumbers t (by simp [htimes])
      refine ⟨t, by simp [htimes], ?_⟩
      exact (Double.lt_eq_false ht hdays).1 (hrest t List.mem_cons_self)
  · rw [htimes, List.getElem?_append_left hn, List.getElem?_eq_getElem hn]

/-- The first ministep from a time on is found if the times span it; otherwise nothing is. -/
theorem ministepAtTime_cases (days : Double) :
    (Spans s.times days ∧ ∃ m, s.ministepAtTime days = .ok m ∧ FirstFrom s.times days m) ∨
      ¬Spans s.times days ∧
        ∃ index, s.ministepAtTime days = .error (.outOfRange .simulatedTime index s.size) := by
  by_cases hspans : Spans s.times days
  · exact .inl ⟨hspans, exists_ministepAtTime hnumbers hincreasing hspans⟩
  · exact .inr ⟨hspans, (ministepAtTime_error_or_spans hnumbers).resolve_right hspans⟩

theorem ministepAtTime_of_getElem? (ht : s.times[m]? = some t) : s.ministepAtTime t = .ok m := by
  have hm : m < s.times.length := (List.getElem?_eq_some_iff.1 ht).1
  have hfirst : s.times[0]? = some s.times[0] := List.getElem?_eq_getElem _
  have hlast : s.times[s.times.length - 1]? = some s.times[s.times.length - 1] :=
    List.getElem?_eq_getElem _
  have hspans : Spans s.times t :=
    ⟨_, _, List.head?_eq_getElem?.trans hfirst, List.getLast?_eq_getElem?.trans hlast,
      hincreasing.le_of_getElem? hnumbers (Nat.zero_le m) hfirst ht,
      hincreasing.le_of_getElem? hnumbers (Nat.le_sub_one_of_lt hm) ht hlast⟩
  obtain ⟨m', hok, hm'⟩ := exists_ministepAtTime hnumbers hincreasing hspans
  rw [hok, hm'.unique (.of_getElem? hincreasing hnumbers ht)]

end Numbers

/-- In a series that was opened with numbers for times, whatever has been asked of it, a ministep is
found for the times from the first to the last one, and it is the first one at or after the time. A
value at the time of a ministep is the value of that ministep. -/
theorem ministepAtTime_of_ofFiles {catalog : SummaryCatalog} {files : List KeywordFile}
    {disk : Disk} {opened : Series} (h : ofFiles catalog files disk = .ok opened)
    (hnumbers : ∀ t ∈ opened.times, t.isNaN = false) (history : List (Disk × Query)) :
    let s := opened.after history
    (∀ days, (∃ m, s.ministepAtTime days = .ok m) ↔ Spans s.times days) ∧
    (∀ days, days.isNaN = true → ∀ m, s.ministepAtTime days ≠ .ok m) ∧
    (∀ days m, s.ministepAtTime days = .ok m → FirstFrom s.times days m) ∧
    (∀ disk position m t, s.times[m]? = some t →
      s.valueAtTime disk position t = s.valueAt disk position m) ∧
    ∀ days fault, s.ministepAtTime days = .error fault →
      ∃ index, fault = .outOfRange .simulatedTime index s.size := by
  intro s
  have htimes : s.times = opened.times := by rw [times, after_ministeps, times]
  have hincreasing : Increasing s.times := htimes ▸ pairwise_times (isChain_times h) hnumbers
  rw [← htimes] at hnumbers
  have hcases := ministepAtTime_cases hnumbers hincreasing
  refine ⟨fun days => ?_, fun days hnan m hok => ?_, fun days m hok => ?_,
    fun disk position m t ht => ?_, fun days fault herror => ?_⟩
  · rcases hcases days with ⟨hspans, m, hok, -⟩ | ⟨hnot, index, herror⟩
    · exact iff_of_true ⟨m, hok⟩ hspans
    · simp [herror, hnot]
  · rcases hcases days with ⟨⟨first, last, -, -, -, hto⟩, -⟩ | ⟨-, index, herror⟩
    · rw [(Double.isNaN_of_le hto).1] at hnan
      cases hnan
    · rw [herror] at hok
      cases hok
  · rcases hcases days with ⟨-, m', hfound, hm'⟩ | ⟨-, index, herror⟩
    · cases hfound.symm.trans hok
      exact hm'
    · rw [herror] at hok
      cases hok
  · rw [valueAtTime, ministepAtTime_of_getElem? hnumbers hincreasing ht, ok_bind]
  · rcases hcases days with ⟨-, m, hok, -⟩ | ⟨-, index, hindex⟩
    · rw [hok] at herror
      cases herror
    · exact ⟨index, Except.error.inj (herror.symm.trans hindex)⟩

/-- Half a day, one day and two days, of which a column has been asked for: three quarters of a day
lead to the second of them, and three days to none. -/
theorem ministepAtTime_of_ofFiles_three :
    let double (n : UInt64) : Double := ⟨n⟩
    let row (days : Double) : Keyword :=
      ⟨⟨"PARAMS", by decide⟩, .double, 1, Element.encode days, .inl rfl⟩
    let catalog : SummaryCatalog :=
      ⟨[⟨"TIME", none, 0, "DAYS", none, none⟩], ⟨1, 1, 1⟩, none, none,
        .gregorian, .midnight ⟨2000, 1, 1⟩, ":"⟩
    let half := double 0x3fe0000000000000
    let threeQuarters := double 0x3fe8000000000000
    let one := double 0x3ff0000000000000
    let two := double 0x4000000000000000
    let three := double 0x4008000000000000
    let entry (n : Nat) : Entry := ⟨"PARAMS", .double, 1, 40 * n, 40 * n + 24, n⟩
    let file : KeywordFile := ⟨"CASE.UNSMRY", .binary .big, 120, ⟨[entry 0, entry 1, entry 2]⟩⟩
    let disk : Disk :=
      ⟨[("CASE.UNSMRY", [half, one, two].flatMap fun days => Records.bytesOf .big (row days))]⟩
    ∃ opened, ofFiles catalog [file] disk = .ok opened ∧
      opened.times = [half, one, two] ∧ (∀ t ∈ opened.times, t.isNaN = false) ∧
      let s := opened.after [(disk, .column 0)]
      s.ministepAtTime threeQuarters = .ok 1 ∧
      FirstFrom [half, one, two] threeQuarters 1 ∧
      s.valueAtTime ⟨[]⟩ 0 one = s.valueAt ⟨[]⟩ 0 1 ∧
      ∃ index, s.ministepAtTime three = .error (.outOfRange .simulatedTime index 3) := by
  intro double row catalog half threeQuarters one two three entry file disk
  have hrun : (ofFiles catalog [file] disk).map (fun opened =>
      let s := opened.after [(disk, .column 0)]
      (opened.times, s.times, s.size, s.ministepAtTime threeQuarters)) =
        .ok ([half, one, two], [half, one, two], 3, .ok 1) := by
    decide +kernel
  obtain ⟨opened, hopened, hresult⟩ := map_eq_ok.1 hrun
  simp only [Prod.mk.injEq] at hresult
  obtain ⟨htimes, hafter, hsize, hok⟩ := hresult
  have hnumbers : ∀ t ∈ opened.times, t.isNaN = false := by
    rw [htimes]
    decide +kernel
  obtain ⟨hiff, -, hfirst, hvalue, hfault⟩ :=
    ministepAtTime_of_ofFiles hopened hnumbers [(disk, .column 0)]
  have hfound := hfirst _ _ hok
  rw [hafter] at hfound
  refine ⟨opened, hopened, htimes, hnumbers, hok, hfound, hvalue _ _ _ _ (by rw [hafter]; rfl), ?_⟩
  cases hthree : (opened.after [(disk, .column 0)]).ministepAtTime three with
  | ok m =>
    obtain ⟨first, last, -, hlast, -, hto⟩ := (hiff three).1 ⟨m, hthree⟩
    rw [hafter] at hlast
    cases hlast
    have hnot : ¬three.le two = true := by decide +kernel
    exact absurd hto hnot
  | error fault =>
    obtain ⟨index, rfl⟩ := hfault three fault hthree
    exact ⟨index, by rw [hsize]⟩

end Series

end Reservoir
