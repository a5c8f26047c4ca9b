import Reservoir.Proofs.Decimal.Difference
import Reservoir.Proofs.Summary.Parameters
import Reservoir.Proofs.Summary.TimeLookup

/-!
Values between ministeps. A stepwise value and one on the line between two ministeps come from one
search. They differ only strictly between two ministeps, where both neighbours can be read because
the values of every ministep were there when its time was.
-/

namespace Reservoir

open Outcome

namespace KeywordFile

/-- The entries are those of a scan of the stream, when it was as long as at opening. -/
def Scanned (file : KeywordFile) (stream : Bytes) : Prop :=
  ∃ opened : KeywordFile, opened.length = stream.length ∧ opened.scan stream = .ok file

variable {file : KeywordFile} {stream : Bytes} {entry : Entry} {α : Type} [Element α]
  {catalog : SummaryCatalog}

theorem type_of_readElement {i : Nat} {x : α} (h : file.readElement stream entry i = .ok x) :
    entry.type = Element.type α := by
  by_contra htype
  rw [readElement_of_type_ne htype] at h
  cases h

theorem exists_load_of_text (hencoding : file.encoding = .text) {i : Nat} {x : α}
    (h : file.readElement stream entry i = .ok x) : ∃ k, file.load stream entry = .ok k := by
  obtain ⟨values, hvalues, -⟩ := bind_eq_ok.1 h
  unfold readRange at hvalues
  split at hvalues
  · cases hvalues
  split at hvalues
  · cases hvalues
  rw [hencoding] at hvalues
  obtain ⟨k, hload, -⟩ := bind_eq_ok.1 hvalues
  exact ⟨k, hload⟩

theorem Scanned.exists_load (h : file.Scanned stream) (hentry : entry ∈ file.catalog.entries)
    {i : Nat} {x : α} (hread : file.readElement stream entry i = .ok x) :
    ∃ k, file.load stream entry = .ok k := by
  obtain ⟨opened, hlength, hscan⟩ := h
  cases hencoding : file.encoding with
  | text => exact exists_load_of_text hencoding hread
  | binary order =>
    obtain ⟨es, hes, hfile⟩ := bind_eq_ok.1 hscan
    cases hfile
    rw [show opened.encoding = .binary order from hencoding, hlength] at hes
    obtain ⟨ks, hdecodes, -⟩ := ((Encoding.scan_agrees_decodeAll stream).2 order).1 es hes
    have hholds : Holds { opened with catalog := ⟨es⟩ } stream ks := by
      refine ⟨?_, ?_⟩
      · rw [hencoding]
        exact hdecodes
      · rw [hencoding]
        exact hes
    obtain ⟨k, -, hloads⟩ := exists_of_mem hholds.lists hentry
    exact ⟨k, hloads.2⟩

theorem Scanned.exists_readElement (h : file.Scanned stream)
    (hentry : entry ∈ file.catalog.entries) (hnumeric : (Element.type α).isNumeric) {i j : Nat}
    {x : α} (hread : file.readElement stream entry i = .ok x) (hj : j < entry.count) :
    ∃ y : α, file.readElement stream entry j = .ok y := by
  have htype := type_of_readElement hread
  obtain ⟨k, hload⟩ := h.exists_load hentry hread
  obtain ⟨opened, -, hscan⟩ := h
  obtain ⟨values, -, hlength, -, helements⟩ :=
    ((readRange_agrees_load hscan hentry (htype ▸ hnumeric) α).1 htype.symm).1 k hload
  exact ⟨values[j], helements j (hlength ▸ hj)⟩

theorem Scanned.exists_readParameter (h : file.Scanned stream)
    (hentry : entry ∈ file.catalog.entries) {i j : Nat} {x : Double}
    (hread : file.readParameter stream entry i = .ok x) (hj : j < entry.count) :
    ∃ y, file.readParameter stream entry j = .ok y := by
  unfold readParameter at hread ⊢
  split at hread
  · exact h.exists_readElement hentry rfl hread hj
  · obtain ⟨single, hsingle, -⟩ := bind_eq_ok.1 hread
    obtain ⟨y, hy⟩ := h.exists_readElement hentry rfl hsingle hj
    exact ⟨y.widen, by rw [hy, ok_bind, pure_eq]⟩

theorem exists_readParameter_of_daysOf {days : Double}
    (h : catalog.daysOf file stream entry = .ok days) :
    ∃ i x, file.readParameter stream entry i = .ok x := by
  unfold SummaryCatalog.daysOf at h
  split at h
  · exact ⟨_, _, h⟩
  · obtain ⟨x, hx, -⟩ := bind_eq_ok.1 h
    exact ⟨_, x, hx⟩
  · obtain ⟨x, hx, -⟩ := bind_eq_ok.1 h
    exact ⟨_, x, hx⟩
  · cases h

end KeywordFile

namespace SeriesStart

variable {catalog : SummaryCatalog} {file : KeywordFile} {entry : Entry} {disk : Disk}
  {s s' : SeriesStart}

def Readable (catalog : SummaryCatalog) (disk : Disk) (s : SeriesStart) : Prop :=
  ∀ m ∈ s.ministeps, ∀ position < catalog.size, ∃ x, Series.readValue disk position m = .ok x

theorem Readable.step (h : s.Readable catalog disk)
    (hfile : file.Scanned (disk.content file.path)) (hentry : entry ∈ file.catalog.entries)
    (hstep : Step catalog file (disk.content file.path) s entry s') :
    s'.Readable catalog disk := by
  cases hstep with
  | report hname => exact h
  | number hname hread => exact h
  | ministep hname hcount hdays hlater =>
    obtain ⟨i, x, hread⟩ := KeywordFile.exists_readParameter_of_daysOf hdays
    intro m hm position hposition
    rcases List.mem_append.1 hm with hm | hm
    · exact h m hm position hposition
    · rw [List.mem_singleton.1 hm]
      exact hfile.exists_readParameter hentry hread (hcount ▸ hposition)
  | other hreport hnumber hministep => exact h

end SeriesStart

namespace Double

variable {x y z : Double}

theorem same_eq_true :
    x.same y = true ↔ ∃ a, x.place? = some a ∧ y.place? = some a := by
  simp only [same, compareBy_eq_true, beq_iff_eq]
  constructor
  · rintro ⟨a, b, hx, hy, rfl⟩
    exact ⟨a, hx, hy⟩
  · rintro ⟨a, hx, hy⟩
    exact ⟨a, a, hx, hy, rfl⟩

theorem lt_of_le_of_not_same (hle : x.le y = true) (hsame : ¬y.same x = true) : x.lt y = true := by
  obtain ⟨a, b, hx, hy, hab⟩ := le_eq_true.1 hle
  refine lt_eq_true.2 ⟨a, b, hx, hy, lt_of_le_of_ne hab ?_⟩
  rintro rfl
  exact hsame (same_eq_true.2 ⟨a, hy, hx⟩)

theorem not_lt_of_same (h : x.same y = true) : ¬x.lt y = true := by
  obtain ⟨a, hx, hy⟩ := same_eq_true.1 h
  intro hlt
  obtain ⟨b, c, hb, hc, hbc⟩ := lt_eq_true.1 hlt
  cases hx.symm.trans hb
  cases hy.symm.trans hc
  exact Int.lt_irrefl a hbc

theorem same_of_le_of_le (hxy : x.le y = true) (hyz : y.le z = true) (hzx : z.same x = true) :
    y.same x = true := by
  obtain ⟨a, b, hx, hy, hab⟩ := le_eq_true.1 hxy
  obtain ⟨b', c, hy', hz, hbc⟩ := le_eq_true.1 hyz
  obtain ⟨d, hz', hx'⟩ := same_eq_true.1 hzx
  cases hy.symm.trans hy'
  cases hz.symm.trans hz'
  cases hx.symm.trans hx'
  cases Int.le_antisymm hab hbc
  exact same_eq_true.2 ⟨a, hy, hx⟩

theorem not_span_le_zero (h : x.lt y = true) : ¬y.toFloat - x.toFloat ≤ 0 := by
  obtain ⟨a, b, hx, hy, hab⟩ := lt_eq_true.1 h
  exact not_sub_le_zero hx hy hab

end Double

theorem FirstFrom.same_of_mem {times : List Double} {days t after : Double} {m : Nat}
    (h : FirstFrom times days m) (hincreasing : Increasing times)
    (hnumbers : ∀ t ∈ times, t.isNaN = false) (hafter : times[m]? = some after) (ht : t ∈ times)
    (hsame : t.same days = true) : after.same days = true := by
  obtain ⟨n, hn⟩ := List.mem_iff_getElem?.1 ht
  obtain ⟨after', hafter', hle⟩ := h.reached
  cases hafter.symm.trans hafter'
  rcases Nat.lt_or_ge n m with hlt | hge
  · obtain ⟨t', ht', hbelow⟩ := h.earlier n hlt
    cases hn.symm.trans ht'
    exact absurd hbelow (Double.not_lt_of_same hsame)
  · exact Double.same_of_le_of_le hle (hincreasing.le_of_getElem? hnumbers hge hafter hn) hsame

theorem SummaryCatalog.lt_of_getVariable {catalog : SummaryCatalog} {position : Nat} {v : Variable}
    (h : catalog.getVariable position = .ok v) : position < catalog.size := by
  unfold getVariable atPosition? at h
  split at h
  · next hmember => exact (List.getElem?_eq_some_iff.1 hmember).1
  · cases h

namespace Series

variable {catalog : SummaryCatalog} {files : List KeywordFile} {disk : Disk} {s : Series}
  {position index : Nat} {days t x : Double}

/-- There is nothing to interpolate: the variable is a rate, the time is one of a ministep, or it
leads to the first ministep. -/
def Stepwise (s : Series) (position : Nat) (days : Double) : Prop :=
  (∃ v, s.catalog.getVariable position = .ok v ∧ v.isRate = true) ∨
    (∃ t ∈ s.times, t.same days = true) ∨ s.ministepAtTime days = .ok 0

/-- A value between two neighbouring ministeps that a time lies strictly between, made of the values
at the two. -/
def Interpolated (s : Series) (disk : Disk) (position : Nat) (days : Double) (m : Nat)
    (x : Double) : Prop :=
  ∃ before after atBefore atAfter : Double,
    s.times[m]? = some before ∧ s.times[m + 1]? = some after ∧
      before.lt days = true ∧ days.lt after = true ∧
      s.valueAt disk position m = .ok atBefore ∧ s.valueAt disk position (m + 1) = .ok atAfter ∧
      x = .ofFloat
        ((after.toFloat - days.toFloat) / (after.toFloat - before.toFloat) * atBefore.toFloat +
          (days.toFloat - before.toFloat) / (after.toFloat - before.toFloat) * atAfter.toFloat)

theorem ministep_of_getElem? {m : Ministep} (h : s.ministeps[index]? = some m) :
    s.ministep index = .ok m := by
  simp only [ministep, h]

theorem timeAt_of_getElem? (h : s.times[index]? = some t) : s.timeAt index = .ok t := by
  rw [times, List.getElem?_map, Option.map_eq_some_iff] at h
  obtain ⟨m, hm, rfl⟩ := h
  rw [timeAt, ministep_of_getElem? hm, ok_bind, pure_eq]

theorem valueAt_of_unknown {fault : Fault} (h : s.catalog.getVariable position = .error fault)
    (disk : Disk) (index : Nat) : s.valueAt disk position index = .error fault := by
  rw [valueAt, h, error_bind]

section Agreement

variable (hnumbers : ∀ t ∈ s.times, t.isNaN = false) (hincreasing : Increasing s.times)

include hnumbers hincreasing

theorem interpolate_of_stepwise (h : s.Stepwise position days) :
    s.interpolate disk position days = s.valueAtTime disk position days := by
  rw [interpolate, valueAtTime]
  rcases ministepAtTime_cases hnumbers hincreasing days with
    ⟨-, index, hindex, hfirst⟩ | ⟨-, index, herror⟩
  · obtain ⟨after, hafter, -⟩ := hfirst.reached
    rw [hindex, ok_bind, timeAt_of_getElem? hafter, ok_bind, ok_bind]
    split
    · rfl
    · next hnot =>
      rw [not_or] at hnot
      cases hvariable : s.catalog.getVariable position with
      | error fault => rw [error_bind, valueAt_of_unknown hvariable]
      | ok v =>
        rw [ok_bind]
        rcases h with ⟨v', hv, hrate⟩ | ⟨t, ht, hsame⟩ | hzero
        · cases hvariable.symm.trans hv
          rw [if_pos hrate]
        · exact absurd (hfirst.same_of_mem hincreasing hnumbers hafter ht hsame) hnot.2
        · cases hindex.symm.trans hzero
          exact absurd rfl hnot.1
  · rw [herror]
    rfl

/-- Elsewhere both fail alike, or the time lies between two ministeps and both neighbours are
read. -/
theorem interpolate_of_not_stepwise (h : ¬s.Stepwise position days)
    (hvalues : ∀ v, s.catalog.getVariable position = .ok v →
      ∀ index < s.size, ∃ x, s.valueAt disk position index = .ok x) :
    (∃ fault, s.interpolate disk position days = .error fault ∧
      s.valueAtTime disk position days = .error fault) ∨
    ∃ m x y, s.interpolate disk position days = .ok x ∧
      s.valueAtTime disk position days = .ok y ∧ s.Interpolated disk position days m x := by
  rw [Stepwise, not_or, not_or] at h
  obtain ⟨hrate, hsame, hzero⟩ := h
  rw [interpolate, valueAtTime]
  rcases ministepAtTime_cases hnumbers hincreasing days with
    ⟨-, index, hindex, hfirst⟩ | ⟨-, index, herror⟩
  · obtain ⟨after, hafter, hle⟩ := hfirst.reached
    have hnotSame : ¬after.same days = true :=
      fun hafterSame => hsame ⟨after, List.mem_of_getElem? hafter, hafterSame⟩
    cases index with
    | zero => exact absurd hindex hzero
    | succ m =>
      rw [hindex, ok_bind, timeAt_of_getElem? hafter, ok_bind, ok_bind, if_neg (by simp [hnotSame])]
      cases hvariable : s.catalog.getVariable position with
      | error fault =>
        exact .inl ⟨fault, by rw [error_bind], valueAt_of_unknown hvariable disk (m + 1)⟩
      | ok v =>
        obtain ⟨before, hbefore, hfrom⟩ := hfirst.earlier m (Nat.lt_succ_self m)
        have hto := Double.lt_of_le_of_not_same hle hnotSame
        have hspan := Double.not_span_le_zero (Double.lt_trans hfrom hto)
        have hsize : m + 1 < s.size := by
          have hlength := (List.getElem?_eq_some_iff.1 hafter).1
          rwa [times, List.length_map] at hlength
        obtain ⟨atBefore, hatBefore⟩ := hvalues v hvariable m (Nat.lt_of_succ_lt hsize)
        obtain ⟨atAfter, hatAfter⟩ := hvalues v hvariable (m + 1) hsize
        have hnotRate : ¬v.isRate = true := fun hv => hrate ⟨v, hvariable, hv⟩
        refine .inr ⟨m, _, atAfter, ?_, hatAfter,
          before, after, atBefore, atAfter, hbefore, hafter, hfrom, hto, hatBefore, hatAfter, rfl⟩
        rw [ok_bind, if_neg hnotRate, Nat.add_sub_cancel, timeAt_of_getElem? hbefore, ok_bind,
          if_neg hspan, hatBefore, ok_bind, hatAfter, ok_bind, pure_eq, between]
  · rw [herror]
    exact .inl ⟨_, rfl, rfl⟩

end Agreement

theorem exists_readValue_of_ofFiles (hopen : ofFiles catalog files disk = .ok s)
    (hfiles : ∀ file ∈ files, file.Scanned (disk.content file.path)) :
    ∀ m ∈ s.ministeps, ∀ position < catalog.size, ∃ x, readValue disk position m = .ok x := by
  obtain ⟨last, hreadable, rfl⟩ := ofFiles_invariant (P := SeriesStart.Readable catalog disk)
    (fun _ hs => hs) (fun file hfile entry hentry _ _ hs hstep =>
      hs.step (hfiles file hfile) hentry hstep)
    (fun m hm => absurd hm List.not_mem_nil) hopen
  exact hreadable

theorem exists_valueAt (hcurrent : s.Current disk)
    (hvalues : ∀ m ∈ s.ministeps, ∀ position < s.catalog.size,
      ∃ x, readValue disk position m = .ok x) {v : Variable}
    (hv : s.catalog.getVariable position = .ok v) (hindex : index < s.size) :
    ∃ x, s.valueAt disk position index = .ok x := by
  obtain ⟨m, hm⟩ : ∃ m, s.ministeps[index]? = some m := ⟨_, List.getElem?_eq_getElem hindex⟩
  obtain ⟨x, hx⟩ := hvalues m (List.mem_of_getElem? hm) position
    (SummaryCatalog.lt_of_getVariable hv)
  have hfresh : s.fresh.valueAt disk position index = (s.catalog.getVariable position >>= fun _ =>
      s.ministep index >>= readValue disk position) := rfl
  refine ⟨x, ?_⟩
  rw [valueAt_of_current hcurrent, hfresh, hv, ok_bind, ministep_of_getElem? hm, ok_bind, hx]

/-- Whatever has been asked of a series while its files stay as they were opened, interpolation
fails where stepwise lookup does and with the same fault. Where there is nothing to interpolate the
two are the same; everywhere else a result comes from the two ministeps that the time lies strictly
between. -/
theorem interpolate_agrees_valueAtTime {opened : Series}
    (hopen : ofFiles catalog files disk = .ok opened)
    (hfiles : ∀ file ∈ files, file.Scanned (disk.content file.path))
    (hnumbers : ∀ t ∈ opened.times, t.isNaN = false) {history : List (Disk × Query)}
    (hhistory : ∀ past ∈ history, SameFiles files disk past.1) {now : Disk}
    (hnow : SameFiles files disk now) (position : Nat) (days : Double) :
    let s := opened.after history
    (∀ fault, s.interpolate now position days = .error fault ↔
      s.valueAtTime now position days = .error fault) ∧
    (s.Stepwise position days →
      s.interpolate now position days = s.valueAtTime now position days) ∧
    (¬s.Stepwise position days → ∀ x, s.interpolate now position days = .ok x →
      ∃ m, s.Interpolated now position days m x) := by
  intro s
  have htimes : s.times = opened.times := by rw [times, after_ministeps, times]
  have hincreasing : Increasing s.times := htimes ▸ pairwise_times (isChain_times hopen) hnumbers
  rw [← htimes] at hnumbers
  obtain ⟨rfl, -, hmembers⟩ := ofFiles_eq_ok hopen
  have hcurrent : s.Current now := by
    have hpasts : ∀ past ∈ history, SameFiles files now past.1 :=
      fun past hpast file hfile => (hhistory past hpast file hfile).trans (hnow file hfile).symm
    exact Current.after (fresh_of_ofFiles hopen ▸ opened.current_fresh now) hmembers hpasts
  have hvalues : ∀ v, s.catalog.getVariable position = .ok v →
      ∀ index < s.size, ∃ x, s.valueAt now position index = .ok x := by
    refine fun v hv index hindex =>
      exists_valueAt hcurrent (fun m hm position hposition => ?_) hv hindex
    rw [after_ministeps] at hm
    rw [after_catalog] at hposition
    rw [readValue_congr hnow (hmembers m hm)]
    exact exists_readValue_of_ofFiles hopen hfiles m hm position hposition
  have hstepwise : s.Stepwise position days →
      s.interpolate now position days = s.valueAtTime now position days :=
    interpolate_of_stepwise hnumbers hincreasing
  refine ⟨fun fault => ?_, hstepwise, fun hnot x hx => ?_⟩
  · by_cases h : s.Stepwise position days
    · rw [hstepwise h]
    · rcases interpolate_of_not_stepwise hnumbers hincreasing h hvalues with
        ⟨fault', herror, herror'⟩ | ⟨m, x, y, hx, hy, -⟩
      · rw [herror, herror']
      · rw [hx, hy]
        exact iff_of_false (fun h => by cases h) fun h => by cases h
  · rcases interpolate_of_not_stepwise hnumbers hincreasing hnot hvalues with
      ⟨fault, herror, -⟩ | ⟨m, x', y, hx', -, hm⟩
    · cases hx.symm.trans herror
    · cases hx.symm.trans hx'
      exact ⟨m, hm⟩

/-- A total and a rate halfway between two ministeps, and a variable that there is not. -/
theorem interpolate_agrees_valueAtTime_halfway :
    let double (n : UInt64) : Double := ⟨n⟩
    let one := double 0x3ff0000000000000
    let oneAndHalf := double 0x3ff8000000000000
    let two := double 0x4000000000000000
    let three := double 0x4008000000000000
    let row (days total rate : Double) : Keyword :=
      ⟨⟨"PARAMS", by decide⟩, .double, 3,
        Element.encode days ++ Element.encode total ++ Element.encode rate, .inl rfl⟩
    let catalog : SummaryCatalog :=
      ⟨[⟨"TIME", none, 0, "DAYS", none, none⟩, ⟨"FOPT", none, 0, "SM3", none, none⟩,
        ⟨"FOPR", none, 0, "SM3/DAY", none, none⟩], ⟨1, 1, 1⟩, none, none,
        .gregorian, .midnight ⟨2000, 1, 1⟩, ":"⟩
    let entry (n : Nat) : Entry := ⟨"PARAMS", .double, 3, 56 * n, 56 * n + 24, n⟩
    let file : KeywordFile := ⟨"CASE.UNSMRY", .binary .big, 112, ⟨[entry 0, entry 1]⟩⟩
    let disk : Disk := ⟨[("CASE.UNSMRY",
      Records.bytesOf .big (row one one two) ++ Records.bytesOf .big (row two three one))]⟩
    file.Scanned (disk.content file.path) ∧
    ∃ opened, ofFiles catalog [file] disk = .ok opened ∧
      (∀ t ∈ opened.times, t.isNaN = false) ∧
      let s := opened.after [(disk, .column 0)]
      s.interpolate disk 1 oneAndHalf = .ok two ∧ (∃ m, s.Interpolated disk 1 oneAndHalf m two) ∧
      s.interpolate disk 2 oneAndHalf = s.valueAtTime disk 2 oneAndHalf ∧
      s.interpolate disk 3 oneAndHalf = .error (.outOfRange .summaryPosition 3 3) := by
  intro double one oneAndHalf two three row catalog entry file disk
  have hscanned : file.Scanned (disk.content file.path) :=
    ⟨{ file with catalog := .empty }, by decide +kernel, by decide +kernel⟩
  have hrun : (ofFiles catalog [file] disk).map (fun opened =>
      let s := opened.after [(disk, .column 0)]
      (opened.times, s.ministepAtTime oneAndHalf, s.interpolate disk 1 oneAndHalf,
        s.valueAtTime disk 3 oneAndHalf)) =
      .ok ([one, two], .ok 1, .ok two, .error (.outOfRange .summaryPosition 3 3)) := by
    decide +kernel
  obtain ⟨opened, hopen, hresult⟩ := map_eq_ok.1 hrun
  simp only [Prod.mk.injEq] at hresult
  obtain ⟨htimes, hindex, hvalue, hunknown⟩ := hresult
  have hnumbers : ∀ t ∈ opened.times, t.isNaN = false := by
    rw [htimes]
    decide +kernel
  have hsame : SameFiles [file] disk disk := fun _ _ => rfl
  have hpasts : ∀ past ∈ [(disk, Query.column 0)], SameFiles [file] disk past.1 :=
    fun past hpast => List.mem_singleton.1 hpast ▸ hsame
  have hagrees := interpolate_agrees_valueAtTime hopen
    (fun f hf => List.mem_singleton.1 hf ▸ hscanned) hnumbers hpasts hsame
  have hcatalog : (opened.after [(disk, .column 0)]).catalog = catalog :=
    (after_catalog ..).trans (ofFiles_eq_ok hopen).1
  refine ⟨hscanned, opened, hopen, hnumbers, hvalue, ?_, ?_, ?_⟩
  · refine (hagrees 1 oneAndHalf).2.2 ?_ two hvalue
    rintro (⟨v, hv, hrate⟩ | ⟨t, ht, hsame⟩ | hzero)
    · rw [hcatalog] at hv
      cases hv
      have hnot : ¬Variable.isRate ⟨"FOPT", none, 0, "SM3", none, none⟩ = true := by decide +kernel
      exact hnot hrate
    · rw [times, after_ministeps] at ht
      rw [← times, htimes] at ht
      have hnone : ∀ t ∈ [one, two], ¬t.same oneAndHalf = true := by decide +kernel
      exact hnone t ht hsame
    · cases hindex.symm.trans hzero
  · exact (hagrees 2 oneAndHalf).2.1 (.inl ⟨_, by rw [hcatalog]; rfl, by decide +kernel⟩)
  · exact ((hagrees 3 oneAndHalf).1 _).2 hunknown

end Series

end Reservoir
