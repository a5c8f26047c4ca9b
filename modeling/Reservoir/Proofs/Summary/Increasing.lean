import Mathlib.Data.List.Chain
import Reservoir.Proofs.Stream.RecordRoundTrip
import Reservoir.Proofs.Summary.Opening

/-!
The times of a series. Opening asks of every time that it is not at or before the one in front of
it, which no comparison with a NaN is, so a NaN may stand anywhere and after it any time goes. Times
without a NaN increase. Apart from that, files in order are opened as far as their times let them.
-/

namespace Reservoir

open Outcome

namespace Double

variable {x y z : Double}

theorem compareBy_eq_true {test : Int → Int → Bool} :
    compareBy test x y = true ↔
      ∃ a b, x.place? = some a ∧ y.place? = some b ∧ test a b = true := by
  unfold compareBy
  cases x.place? <;> cases y.place? <;> simp

theorem lt_eq_true :
    x.lt y = true ↔ ∃ a b, x.place? = some a ∧ y.place? = some b ∧ a < b := by
  simp only [lt, compareBy_eq_true, decide_eq_true_eq]

theorem lt_trans (hxy : x.lt y = true) (hyz : y.lt z = true) : x.lt z = true := by
  obtain ⟨a, b, hx, hy, hab⟩ := lt_eq_true.1 hxy
  obtain ⟨b', c, hy', hz, hbc⟩ := lt_eq_true.1 hyz
  cases hy.symm.trans hy'
  exact lt_eq_true.2 ⟨a, c, hx, hz, Int.lt_trans hab hbc⟩

theorem le_eq_false :
    y.le x = false ↔ x.isNaN = true ∨ y.isNaN = true ∨ x.lt y = true := by
  unfold le lt compareBy isNaN
  cases x.place? <;> cases y.place? <;> simp

/-- A time that opening takes after another one. -/
def Follows (last next : Double) : Prop := next.le last = false

end Double

theorem rel_of_infix {α : Type} {R : α → α → Prop} {xs : List α} {a b : α} (h : xs.IsChain R)
    (hpair : [a, b] <:+: xs) : R a b :=
  List.isChain_pair.1 <| h.infix hpair

namespace SeriesStart

variable {catalog : SummaryCatalog} {file : KeywordFile} {stream : Bytes} {entry : Entry}
  {disk : Disk} {s s' : SeriesStart}

def times (s : SeriesStart) : List Double := s.ministeps.map Ministep.days

theorem times_push (s : SeriesStart) (file : KeywordFile) (entry : Entry) (days : Double) :
    (s.push file entry days).times = s.times ++ [days] := by
  simp only [times, push, List.map_append, List.map_singleton]

def InOrder (s : SeriesStart) : Prop := s.times.IsChain Double.Follows

theorem follows_last_iff {days : Double} : (∀ last ∈ s.times.getLast?, Double.Follows last days) ↔
    ∀ m, s.ministeps.getLast? = some m → days.le m.days = false := by
  rw [times, List.getLast?_map]
  cases s.ministeps.getLast? <;> simp [Double.Follows]

theorem isChain_concat {xs : List Double} (h : xs.IsChain Double.Follows) {x : Double} :
    (xs ++ [x]).IsChain Double.Follows ↔ ∀ last ∈ xs.getLast?, Double.Follows last x := by
  simp [List.isChain_append, h]

theorem InOrder.step (h : s.InOrder) (hstep : Step catalog file stream s entry s') :
    s'.InOrder := by
  cases hstep with
  | report hname => exact h
  | number hname hread => exact h
  | ministep hname hcount hdays hlater =>
    rw [InOrder, times_push, isChain_concat h, follows_last_iff]
    exact hlater
  | other hreport hnumber hministep => exact h

structure Sound (catalog : SummaryCatalog) (file : KeywordFile) (stream : Bytes) (entry : Entry) :
    Prop where
  number : entry.name = "MINISTEP" → ∃ number : Int32, file.readElement stream entry 0 = .ok number
  count : entry.name = "PARAMS" → entry.count = catalog.size
  days : entry.name = "PARAMS" → ∃ days, catalog.daysOf file stream entry = .ok days

def timesOf (catalog : SummaryCatalog) (file : KeywordFile) (stream : Bytes) (entry : Entry) :
    List Double :=
  if entry.name = "PARAMS" then (catalog.daysOf file stream entry).toOption.toList else []

/-- More times are taken, or opening stops at two that are not in order. -/
inductive Takes (seen more : List Double) : Outcome SeriesStart → Prop where
  | all {s : SeriesStart} (htimes : s.times = seen ++ more) (horder : s.InOrder) :
      Takes seen more (.ok s)
  | stopped {last next : Double} {path : String} (hpair : [last, next] <:+: seen ++ more)
      (hle : next.le last = true) :
      Takes seen more (reject (.timeNotIncreasing last next path))

theorem Takes.append {seen more rest : List Double} {x : Outcome SeriesStart}
    (h : Takes (seen ++ more) rest x) : Takes seen (more ++ rest) x := by
  cases h with
  | all htimes horder => exact .all (by rw [htimes, List.append_assoc]) horder
  | stopped hpair hle => exact .stopped (by rwa [← List.append_assoc]) hle

theorem takes_none (h : s.InOrder) : Takes s.times [] (.ok s) :=
  .all (List.append_nil _).symm h

theorem addEntry_takes (hsound : Sound catalog file stream entry) (h : s.InOrder) :
    Takes s.times (timesOf catalog file stream entry) (addEntry catalog file stream s entry) := by
  by_cases hministep : entry.name = "PARAMS"
  · obtain ⟨days, hdays⟩ := hsound.days hministep
    have hmore : timesOf catalog file stream entry = [days] := by
      rw [timesOf, if_pos hministep, hdays]
      rfl
    rw [addEntry_ministep hministep, checkCount_eq_ok.2 (hsound.count hministep), ok_bind, hdays,
      ok_bind, hmore]
    by_cases hlater : ∀ m, s.ministeps.getLast? = some m → days.le m.days = false
    · rw [checkLater_eq_ok.2 hlater, ok_bind]
      refine .all (times_push ..) ?_
      rw [InOrder, times_push, isChain_concat h, follows_last_iff]
      exact hlater
    · have hearly : ∃ m, s.ministeps.getLast? = some m ∧ days.le m.days = true := by
        simpa using hlater
      obtain ⟨m, hlast, hle⟩ := hearly
      obtain ⟨front, hfront⟩ := List.getLast?_eq_some_iff.1 hlast
      have hpair : [m.days, days] <:+: s.times ++ [days] :=
        ⟨front.map Ministep.days, [], by simp [times, hfront]⟩
      rw [hlast, checkLater, if_pos hle]
      exact .stopped hpair hle
  · have hmore : timesOf catalog file stream entry = [] := if_neg hministep
    rw [hmore]
    by_cases hreport : entry.name = "SEQHDR"
    · rw [addEntry_report hreport]
      exact takes_none (s := { s with reportStep := s.reportStep + 1 }) h
    by_cases hnumber : entry.name = "MINISTEP"
    · obtain ⟨number, hread⟩ := hsound.number hnumber
      rw [addEntry_number hnumber, hread, ok_bind]
      exact takes_none (s := { s with number := some number.toInt }) h
    · rw [addEntry_other hreport hnumber hministep]
      exact takes_none h

theorem foldlM_takes {α : Type} {f : SeriesStart → α → Outcome SeriesStart} {xs : List α}
    {more : α → List Double}
    (hstep : ∀ a ∈ xs, ∀ s : SeriesStart, s.InOrder → Takes s.times (more a) (f s a))
    (h : s.InOrder) : Takes s.times (xs.flatMap more) (xs.foldlM f s) := by
  induction xs generalizing s with
  | nil => exact takes_none h
  | cons x xs ih =>
    simp only [List.mem_cons, forall_eq_or_imp] at hstep
    rw [List.flatMap_cons, List.foldlM_cons]
    have hfirst := hstep.1 s h
    generalize f s x = next at hfirst
    cases hfirst with
    | all htimes horder =>
      have hrest := ih hstep.2 horder
      rw [htimes] at hrest
      rw [ok_bind]
      exact hrest.append
    | stopped hpair hle =>
      refine .stopped (hpair.trans ⟨[], xs.flatMap more, ?_⟩) hle
      simp

def timesIn (catalog : SummaryCatalog) (disk : Disk) (file : KeywordFile) : List Double :=
  file.catalog.entries.flatMap (timesOf catalog file (disk.content file.path))

theorem addFile_takes
    (hsound : ∀ entry ∈ file.catalog.entries, Sound catalog file (disk.content file.path) entry)
    (h : s.InOrder) : Takes s.times (timesIn catalog disk file) (addFile catalog disk s file) :=
  foldlM_takes (s := { s with number := none })
    (fun entry hentry _ hs => addEntry_takes (hsound entry hentry) hs) h

end SeriesStart

namespace Series

variable {catalog : SummaryCatalog} {files : List KeywordFile} {disk : Disk} {s : Series}

theorem isChain_times (h : ofFiles catalog files disk = .ok s) :
    s.times.IsChain Double.Follows := by
  obtain ⟨last, horder, rfl⟩ := ofFiles_invariant (P := SeriesStart.InOrder) (fun _ hs => hs)
    (fun _ _ _ _ _ _ hs hstep => hs.step hstep) .nil h
  exact horder

theorem pairwise_times (h : s.times.IsChain Double.Follows)
    (hnumbers : ∀ days ∈ s.times, days.isNaN = false) :
    s.times.Pairwise fun before after => before.lt after = true := by
  have : Trans (fun x y : Double => x.lt y = true) (fun x y => x.lt y = true)
      (fun x y => x.lt y = true) := ⟨Double.lt_trans⟩
  refine List.isChain_iff_pairwise.1 (h.imp_of_mem_imp fun x y hx hy hfollows => ?_)
  obtain hx' | hy' | hlt := Double.le_eq_false.1 hfollows
  · rw [hnumbers x hx] at hx'
    cases hx'
  · rw [hnumbers y hy] at hy'
    cases hy'
  · exact hlt

/-- The times of a series that was opened increase from each to the next, save before and after a
NaN. Files whose entries can be read are opened if no time is at or before the one in front of it;
otherwise two such times are refused as a defect of the data. -/
theorem times_increase (catalog : SummaryCatalog) (files : List KeywordFile) (disk : Disk) :
    (∀ s, ofFiles catalog files disk = .ok s →
      s.times.IsChain (fun before after =>
        before.isNaN = true ∨ after.isNaN = true ∨ before.lt after = true) ∧
      ((∀ days ∈ s.times, days.isNaN = false) →
        s.times.Pairwise fun before after => before.lt after = true)) ∧
    ((∀ file ∈ files, ∀ entry ∈ file.catalog.entries,
        SeriesStart.Sound catalog file (disk.content file.path) entry) →
      let stored := files.flatMap (SeriesStart.timesIn catalog disk)
      let ordered := stored.IsChain fun before after => after.le before = false
      (ordered → ∃ s, ofFiles catalog files disk = .ok s ∧ s.times = stored) ∧
        (¬ordered → ∃ before after path, [before, after] <:+: stored ∧ after.le before = true ∧
          ofFiles catalog files disk = reject (.timeNotIncreasing before after path))) := by
  refine ⟨fun s h => ⟨?_, pairwise_times (isChain_times h)⟩, fun hsound => ?_⟩
  · exact (isChain_times h).imp fun _ _ => Double.le_eq_false.1
  · have hstep : ∀ file ∈ files, ∀ s : SeriesStart, s.InOrder →
        SeriesStart.Takes s.times (SeriesStart.timesIn catalog disk file)
          (SeriesStart.addFile catalog disk s file) :=
      fun file hfile _ hs => SeriesStart.addFile_takes (hsound file hfile) hs
    have htakes := SeriesStart.foldlM_takes (s := start catalog) hstep .nil
    rw [ofFiles_eq]
    generalize files.foldlM (SeriesStart.addFile catalog disk) (start catalog) = x at htakes
    cases htakes with
    | all htimes horder =>
      have hchain : (files.flatMap (SeriesStart.timesIn catalog disk)).IsChain Double.Follows := by
        rw [SeriesStart.InOrder, htimes] at horder
        exact horder
      exact ⟨fun _ => ⟨_, rfl, htimes⟩, fun hnot => absurd hchain hnot⟩
    | stopped hpair hle =>
      refine ⟨fun hchain => ?_, fun _ => ⟨_, _, _, hpair, hle, rfl⟩⟩
      have hfollows := rel_of_infix hchain hpair
      rw [hle] at hfollows
      cases hfollows

/-- A NaN between two falling times goes through; the same time twice does not. -/
theorem times_increase_nan :
    let double (n : UInt64) : Double := ⟨n⟩
    let row (days : Double) : Keyword :=
      ⟨⟨"PARAMS", by decide⟩, .double, 1, Element.encode days, .inl rfl⟩
    let catalog : SummaryCatalog :=
      ⟨[⟨"TIME", none, 0, "DAYS", none, none⟩], ⟨1, 1, 1⟩, none, none,
        .gregorian, .midnight ⟨2000, 1, 1⟩, ":"⟩
    let half := double 0x3fe0000000000000
    let one := double 0x3ff0000000000000
    let nan := double 0x7ff8000000000000
    let entry (n : Nat) : Entry := ⟨"PARAMS", .double, 1, 40 * n, 40 * n + 24, n⟩
    let falling : KeywordFile := ⟨"FALL.UNSMRY", .binary .big, 120, ⟨[entry 0, entry 1, entry 2]⟩⟩
    let level : KeywordFile := ⟨"FLAT.UNSMRY", .binary .big, 80, ⟨[entry 0, entry 1]⟩⟩
    let disk : Disk :=
      ⟨[("FALL.UNSMRY", [one, nan, half].flatMap fun days => Records.bytesOf .big (row days)),
        ("FLAT.UNSMRY", [one, one].flatMap fun days => Records.bytesOf .big (row days))]⟩
    (∃ s, ofFiles catalog [falling] disk = .ok s ∧ s.times = [one, nan, half] ∧
      s.times.IsChain fun before after =>
        before.isNaN = true ∨ after.isNaN = true ∨ before.lt after = true) ∧
    ∃ before after path, [before, after] <:+: [one, one] ∧ after.le before = true ∧
      ofFiles catalog [level] disk = reject (.timeNotIncreasing before after path) := by
  intro double row catalog half one nan entry falling level disk
  have hopen : (ofFiles catalog [falling] disk).map Series.times = .ok [one, nan, half] := by
    decide +kernel
  have hsound : ∀ file ∈ [level], ∀ entry ∈ file.catalog.entries,
      SeriesStart.Sound catalog file (disk.content file.path) entry := by
    have hentry : ∀ n < 2, SeriesStart.Sound catalog level (disk.content level.path) (entry n) := by
      intro n hn
      refine ⟨fun hname => ?_, fun _ => rfl, fun _ => ⟨one, ?_⟩⟩
      · have hne : "PARAMS" ≠ "MINISTEP" := by decide
        exact absurd hname hne
      · revert n
        decide +kernel
    intro file hfile e he
    rw [List.mem_singleton.1 hfile] at he ⊢
    simp only [level, List.mem_cons, List.not_mem_nil, or_false] at he
    obtain rfl | rfl := he
    · exact hentry 0 (by decide)
    · exact hentry 1 (by decide)
  have hstored : [level].flatMap (SeriesStart.timesIn catalog disk) = [one, one] := by
    decide +kernel
  constructor
  · obtain ⟨s, hs, htimes⟩ := map_eq_ok.1 hopen
    exact ⟨s, hs, htimes, ((times_increase catalog [falling] disk).1 s hs).1⟩
  · have hlevel := ((times_increase catalog [level] disk).2 hsound).2
    rw [hstored] at hlevel
    refine hlevel fun hchain => ?_
    have hfalse := rel_of_infix hchain (List.infix_refl [one, one])
    revert hfalse
    decide +kernel

end Series

end Reservoir
