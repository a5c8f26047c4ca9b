import Reservoir.Proofs.Summary.Stored
import Reservoir.Summary.Series

/-!
What is relied on of a calendar: its dates are numbered one by one, and a number leads back to its
date. The Gregorian calendar is such a calendar. A ministep is then dated by the one moment that is
as far from the start of the run as its time says.
-/

namespace Reservoir

open Outcome

namespace Gregorian

variable {year n : Int} {lengths : List Nat} {months days : Nat} {d : Date}

def yearLength (year : Int) : Nat := if isLeap year then 366 else 365

theorem sum_monthLengths : (monthLengths year).sum = yearLength year := by
  unfold monthLengths yearLength
  cases isLeap year <;> rfl

theorem isLeap_iff : isLeap year = true ↔ year % 4 = 0 ∧ (year % 100 ≠ 0 ∨ year % 400 = 0) := by
  simp [isLeap]

theorem daysBefore_succ (year : Int) :
    daysBefore (year + 1) = daysBefore year + yearLength year := by
  unfold yearLength daysBefore
  by_cases h : isLeap year
  · rw [if_pos h]
    have hleap := isLeap_iff.1 h
    omega
  · rw [if_neg h]
    have hleap := mt isLeap_iff.2 h
    omega

/-- The years before a year have the mean length but for less than two days. -/
theorem daysBefore_mean (year : Int) :
    146097 * (year - 1) - 699 ≤ 400 * daysBefore year ∧
      400 * daysBefore year ≤ 146097 * (year - 1) + 396 := by
  unfold daysBefore
  omega

theorem yearOf_spec (n : Int) : daysBefore (yearOf n) ≤ n ∧ n < daysBefore (yearOf n + 1) := by
  unfold yearOf
  generalize hguess : n * 400 / 146097 + 1 = guess
  have hbefore := daysBefore_mean (guess - 1)
  have hafter := daysBefore_mean (guess + 1 + 1)
  dsimp only
  split
  · next h =>
    rw [Int.sub_add_cancel]
    exact ⟨by omega, h⟩
  · next h =>
    split
    · next h' => exact ⟨h', by omega⟩
    · next h' => exact ⟨by omega, by omega⟩

theorem yearOf_eq (hstart : daysBefore year ≤ n) (hend : n < daysBefore (year + 1)) :
    yearOf n = year := by
  have hfirst := daysBefore_mean year
  have hlast := daysBefore_mean (year + 1)
  have hlength := daysBefore_succ (year - 1)
  rw [Int.sub_add_cancel] at hlength
  unfold yearOf
  generalize hguess : n * 400 / 146097 + 1 = guess
  have hnear : guess = year - 1 ∨ guess = year ∨ guess = year + 1 := by omega
  dsimp only
  rcases hnear with rfl | rfl | rfl
  · rw [Int.sub_add_cancel, if_neg (by omega), if_pos hstart]
  · rw [if_neg (by omega), if_neg (by omega)]
  · rw [if_pos hend, Int.add_sub_cancel]

theorem monthsBefore_spec {day : Nat} (h : day < lengths.sum) :
    ∃ months days, monthsBefore lengths day = (months, days) ∧
      (lengths.take months).sum + days = day := by
  induction lengths generalizing day with
  | nil => cases h
  | cons length lengths ih =>
    unfold monthsBefore
    by_cases hday : day < length
    · exact ⟨0, day, if_pos hday, Nat.zero_add day⟩
    · rw [List.sum_cons] at h
      have hrest : day - length < lengths.sum := by omega
      obtain ⟨months, days, heq, hsum⟩ := ih hrest
      refine ⟨months + 1, days, by rw [if_neg hday, heq], ?_⟩
      rw [List.take_succ_cons, List.sum_cons, Nat.add_assoc, hsum]
      omega

theorem monthsBefore_eq (h : days < lengths.getD months 0) :
    monthsBefore lengths ((lengths.take months).sum + days) = (months, days) ∧
      (lengths.take months).sum + days < lengths.sum := by
  induction lengths generalizing months with
  | nil => simp at h
  | cons length lengths ih =>
    cases months with
    | zero =>
      have hdays : days < length := h
      rw [List.take_zero, List.sum_nil, Nat.zero_add, monthsBefore, if_pos hdays, List.sum_cons]
      exact ⟨rfl, by omega⟩
    | succ months =>
      obtain ⟨heq, hlt⟩ := ih h
      rw [List.take_succ_cons, List.sum_cons, Nat.add_assoc, monthsBefore, if_neg (by omega),
        Nat.add_sub_cancel_left, heq, List.sum_cons]
      exact ⟨rfl, by omega⟩

theorem isDate_iff : isDate d = true ↔ (-9999 ≤ d.year ∧ d.year ≤ 9999) ∧ 1 ≤ d.month ∧
    1 ≤ d.day ∧ d.day ≤ (monthLengths d.year).getD (d.month - 1) 0 := by
  simp only [isDate, Bool.and_eq_true, decide_eq_true_eq, and_assoc]

theorem dayNumber_eq (h : 1 ≤ d.day) : dayNumber d =
    daysBefore d.year + (((monthLengths d.year).take (d.month - 1)).sum + (d.day - 1) : Nat) := by
  have hsum : ((monthLengths d.year).take (d.month - 1)).foldr Nat.add 0 =
    ((monthLengths d.year).take (d.month - 1)).sum := rfl
  rw [dayNumber, hsum]
  omega

theorem ofDayNumber?_dayNumber (h : isDate d = true) : ofDayNumber? (dayNumber d) = some d := by
  obtain ⟨-, hmonth, hday, hlast⟩ := isDate_iff.1 h
  have hrest : d.day - 1 < (monthLengths d.year).getD (d.month - 1) 0 := by omega
  obtain ⟨hmonths, hwithin⟩ := monthsBefore_eq hrest
  rw [sum_monthLengths] at hwithin
  have hyear : yearOf (dayNumber d) = d.year := by
    rw [dayNumber_eq hday]
    exact yearOf_eq (by omega) (by rw [daysBefore_succ]; omega)
  have hoffset : (dayNumber d - daysBefore d.year).toNat =
      ((monthLengths d.year).take (d.month - 1)).sum + (d.day - 1) := by
    rw [dayNumber_eq hday]
    omega
  unfold ofDayNumber?
  simp only [hyear, hoffset, hmonths, Nat.sub_add_cancel hmonth, Nat.sub_add_cancel hday]
  exact if_pos h

theorem dayNumber_of_ofDayNumber? (h : ofDayNumber? n = some d) :
    isDate d = true ∧ dayNumber d = n := by
  obtain ⟨hstart, hend⟩ := yearOf_spec n
  rw [daysBefore_succ, ← sum_monthLengths] at hend
  have hoffset : (n - daysBefore (yearOf n)).toNat < (monthLengths (yearOf n)).sum := by omega
  obtain ⟨months, days, heq, hsum⟩ := monthsBefore_spec hoffset
  unfold ofDayNumber? at h
  simp only [heq, Option.ite_none_right_eq_some, Option.some.injEq] at h
  obtain ⟨hdate, rfl⟩ := h
  refine ⟨hdate, ?_⟩
  rw [dayNumber_eq (Nat.succ_le_succ (Nat.zero_le days))]
  simp only [Nat.add_sub_cancel, hsum]
  omega

end Gregorian

theorem Moment.dayLength_pos : 0 < dayLength := by decide

namespace Calendar

variable {calendar : Calendar} {n : Int} {m start : Moment} {values : List Int}

/-- What the operations of a calendar have to do with each other. -/
structure Lawful (calendar : Calendar) : Prop where
  ofDayNumber?_dayNumber : ∀ {d : Date}, calendar.isDate d = true →
    calendar.ofDayNumber? (calendar.dayNumber d) = some d
  dayNumber_of_ofDayNumber? : ∀ {n : Int} {d : Date}, calendar.ofDayNumber? n = some d →
    calendar.isDate d = true ∧ calendar.dayNumber d = n

theorem lawful_gregorian : gregorian.Lawful where
  ofDayNumber?_dayNumber := by
    dsimp only [gregorian]
    exact Gregorian.ofDayNumber?_dayNumber
  dayNumber_of_ofDayNumber? := by
    dsimp only [gregorian]
    exact Gregorian.dayNumber_of_ofDayNumber?

/-- The date is one of the calendar, and the time is one within a day. -/
def IsMoment (calendar : Calendar) (m : Moment) : Prop :=
  calendar.isDate m.date = true ∧ m.time < Moment.dayLength

theorem isMoment_of_start? (h : calendar.start? values = some m) : calendar.IsMoment m := by
  have hdate {year month day : Int} {date : Date} (h : calendar.date? year month day = some date) :
      calendar.isDate date = true := by
    obtain ⟨⟨-, -, -, -, hdate⟩, h⟩ := Option.ite_none_right_eq_some.1 h
    exact Option.some.inj h ▸ hdate
  unfold start? at h
  split at h
  · obtain ⟨date, hparts, h⟩ := Option.bind_eq_some_iff.1 h
    obtain ⟨time, htime, h⟩ := Option.bind_eq_some_iff.1 h
    obtain ⟨hbounds, htime⟩ := Option.ite_none_right_eq_some.1 htime
    cases h
    cases htime
    refine ⟨hdate hparts, ?_⟩
    simp only [Moment.dayLength, Moment.secondLength]
    omega
  · obtain ⟨date, hparts, rfl⟩ := Option.map_eq_some_iff.1 h
    exact ⟨hdate hparts, Moment.dayLength_pos⟩
  · cases h

/-- The moment at an instant is the only one of the calendar that is there. -/
theorem Lawful.ofInstant?_eq_some (h : calendar.Lawful) :
    calendar.ofInstant? n = some m ↔ calendar.IsMoment m ∧ calendar.instant m = n := by
  have hlength := Int.natCast_pos.2 Moment.dayLength_pos
  unfold ofInstant? IsMoment instant
  constructor
  · intro hn
    obtain ⟨date, hnumber, rfl⟩ := Option.map_eq_some_iff.1 hn
    obtain ⟨hdate, hday⟩ := h.dayNumber_of_ofDayNumber? hnumber
    have hrest := Int.emod_nonneg n (Int.ne_of_gt hlength)
    have hlast := Int.emod_lt_of_pos n hlength
    refine ⟨⟨hdate, by dsimp only; omega⟩, ?_⟩
    rw [hday, Int.toNat_of_nonneg hrest, Int.mul_comm]
    exact Int.mul_ediv_add_emod n Moment.dayLength
  · rintro ⟨⟨hdate, htime⟩, rfl⟩
    rw [Int.add_comm, Int.add_mul_ediv_right _ _ (Int.ne_of_gt hlength),
      Int.add_mul_emod_self_right, Int.ediv_eq_zero_of_lt (Int.natCast_nonneg _) (by omega),
      Int.zero_add, h.ofDayNumber?_dayNumber hdate,
      Int.emod_eq_of_lt (Int.natCast_nonneg _) (by omega)]
    rfl

theorem Lawful.add?_eq_some (h : calendar.Lawful) : calendar.add? start n = some m ↔
    calendar.IsMoment m ∧ calendar.instant m = calendar.instant start + n :=
  h.ofInstant?_eq_some

/-- There is a leap day in 2000 and none in 1900. -/
example : [gregorian.add? (.midnight ⟨2000, 2, 29⟩) Moment.dayLength,
    gregorian.add? (.midnight ⟨1900, 2, 28⟩) Moment.dayLength] =
      [some (.midnight ⟨2000, 3, 1⟩), some (.midnight ⟨1900, 3, 1⟩)] := by decide

end Calendar

theorem SummaryCatalog.isMoment_start {calendar : Calendar} {file : KeywordFile} {stream : Bytes}
    {separator : String} {c : SummaryCatalog} (h : readBy calendar file stream separator = .ok c) :
    c.calendar.IsMoment c.start := by
  obtain ⟨x, hx, rfl⟩ := readBy_eq_ok.1 h
  obtain ⟨keyword, -, hx⟩ := bind_eq_ok.1 hx.start
  obtain ⟨values, -, hx⟩ := bind_eq_ok.1 hx
  split at hx
  · next hstart =>
    cases hx
    exact Calendar.isMoment_of_start? hstart
  · cases hx

/-- A ministep has the date that is as far from the start as its time is, to the nanosecond. Only a
time that is no number or leads out of the calendar has none. -/
theorem Series.dateAt_eq_ok {s : Series} {index : Nat} {m : Moment}
    (h : s.catalog.calendar.Lawful) : s.dateAt index = .ok m ↔
      ∃ ministep elapsed, s.ministep index = .ok ministep ∧
        (Double.ofFloat (ministep.days.toFloat * 86400)).roundScaled? Moment.secondLength =
          some elapsed ∧
        s.catalog.calendar.IsMoment m ∧ s.catalog.calendar.instant m =
          s.catalog.calendar.instant s.catalog.start + elapsed := by
  unfold dateAt
  simp only [bind_eq_ok, ← h.add?_eq_some]
  refine exists_congr fun ministep => ?_
  rw [exists_and_left]
  refine and_congr_right fun _ => ?_
  rw [← Option.bind_eq_some_iff]
  split
  · next hsome => rw [hsome, pure_eq, Except.ok.injEq, Option.some.injEq]
  · next hnone => simp [hnone, reject]

end Reservoir
