import Reservoir.Proofs.Outcome
import Reservoir.Summary.Series

/-!
Opening a series entry by entry. Four kinds of entries are told by their names, and `Step` says all
that an entry can do where opening goes on; whatever holds from one step to the next holds of a
series that was opened.
-/

namespace Reservoir

open Outcome

namespace SeriesStart

variable {catalog : SummaryCatalog} {file : KeywordFile} {stream : Bytes} {entry : Entry}
  {disk : Disk} {s s' : SeriesStart}

def push (s : SeriesStart) (file : KeywordFile) (entry : Entry) (days : Double) : SeriesStart where
  reportStep := s.reportStep
  ministeps := s.ministeps ++ [⟨file, entry, s.number.getD s.ministeps.length, s.reportStep, days⟩]
  number := none

/-- What an entry does where opening goes on. -/
inductive Step (catalog : SummaryCatalog) (file : KeywordFile) (stream : Bytes) (s : SeriesStart)
    (entry : Entry) : SeriesStart → Prop where
  | report (hname : entry.name = "SEQHDR") :
      Step catalog file stream s entry { s with reportStep := s.reportStep + 1 }
  | number (hname : entry.name = "MINISTEP") {number : Int32}
      (hread : file.readElement stream entry 0 = .ok number) :
      Step catalog file stream s entry { s with number := some number.toInt }
  | ministep (hname : entry.name = "PARAMS") (hcount : entry.count = catalog.size) {days : Double}
      (hdays : catalog.daysOf file stream entry = .ok days)
      (hlater : ∀ last, s.ministeps.getLast? = some last → days.le last.days = false) :
      Step catalog file stream s entry (s.push file entry days)
  | other (hreport : entry.name ≠ "SEQHDR") (hnumber : entry.name ≠ "MINISTEP")
      (hministep : entry.name ≠ "PARAMS") : Step catalog file stream s entry s

theorem checkCount_eq_ok {path : String} :
    checkCount catalog path entry = .ok () ↔ entry.count = catalog.size := by
  unfold checkCount
  split <;> simp_all [reject]

theorem checkLater_eq_ok {path : String} {last : Option Ministep} {days : Double} :
    checkLater path last days = .ok () ↔ ∀ m, last = some m → days.le m.days = false := by
  cases last with
  | none => simp [checkLater]
  | some m => cases h : days.le m.days <;> simp [checkLater, h, reject]

theorem checkCount_agree {entry' : Entry} (h : entry.count = entry'.count) (path path' : String) :
    Agree Eq (checkCount catalog path entry) (checkCount catalog path' entry') := by
  unfold checkCount
  rw [h]
  split
  · rfl
  · rfl

theorem checkLater_agree {last last' : Option Ministep}
    (h : last.map Ministep.days = last'.map Ministep.days) (path path' : String) (days : Double) :
    Agree Eq (checkLater path last days) (checkLater path' last' days) := by
  cases last with
  | none =>
    cases last' with
    | none => rfl
    | some m' => cases h
  | some m =>
    cases last' with
    | none => cases h
    | some m' =>
      have hdays : m.days = m'.days := Option.some.inj h
      simp only [checkLater, hdays]
      split
      · rfl
      · rfl

theorem addEntry_report (hname : entry.name = "SEQHDR") :
    addEntry catalog file stream s entry = .ok { s with reportStep := s.reportStep + 1 } := by
  simp only [addEntry, hname]

theorem addEntry_number (hname : entry.name = "MINISTEP") :
    addEntry catalog file stream s entry =
      ((file.readElement stream entry 0 : Outcome Int32) >>= fun number =>
        .ok { s with number := some number.toInt }) := by
  simp only [addEntry, hname]
  rfl

theorem addEntry_ministep (hname : entry.name = "PARAMS") :
    addEntry catalog file stream s entry =
      (checkCount catalog file.path entry >>= fun _ => catalog.daysOf file stream entry >>=
        fun days => checkLater file.path s.ministeps.getLast? days >>= fun _ =>
          .ok (s.push file entry days)) := by
  simp only [addEntry, hname]
  rfl

theorem addEntry_other (hreport : entry.name ≠ "SEQHDR") (hnumber : entry.name ≠ "MINISTEP")
    (hministep : entry.name ≠ "PARAMS") : addEntry catalog file stream s entry = .ok s := by
  simp only [addEntry]

theorem addEntry_eq_ok :
    addEntry catalog file stream s entry = .ok s' ↔ Step catalog file stream s entry s' := by
  constructor
  · intro h
    by_cases hreport : entry.name = "SEQHDR"
    · rw [addEntry_report hreport] at h
      cases h
      exact .report hreport
    by_cases hnumber : entry.name = "MINISTEP"
    · rw [addEntry_number hnumber] at h
      obtain ⟨number, hread, h⟩ := bind_eq_ok.1 h
      cases h
      exact .number hnumber hread
    by_cases hministep : entry.name = "PARAMS"
    · rw [addEntry_ministep hministep] at h
      obtain ⟨⟨⟩, hcount, h⟩ := bind_eq_ok.1 h
      obtain ⟨days, hdays, h⟩ := bind_eq_ok.1 h
      obtain ⟨⟨⟩, hlater, h⟩ := bind_eq_ok.1 h
      cases h
      exact .ministep hministep (checkCount_eq_ok.1 hcount) hdays (checkLater_eq_ok.1 hlater)
    · rw [addEntry_other hreport hnumber hministep] at h
      cases h
      exact .other hreport hnumber hministep
  · intro h
    cases h with
    | report hname => exact addEntry_report hname
    | number hname hread => rw [addEntry_number hname, hread, ok_bind]
    | ministep hname hcount hdays hlater =>
      rw [addEntry_ministep hname, checkCount_eq_ok.2 hcount, ok_bind, hdays, ok_bind,
        checkLater_eq_ok.2 hlater, ok_bind]
    | other hreport hnumber hministep => exact addEntry_other hreport hnumber hministep

theorem addFile_invariant {P : SeriesStart → Prop}
    (hnumber : ∀ s : SeriesStart, P s → P { s with number := none })
    (hstep : ∀ entry ∈ file.catalog.entries, ∀ s s', P s →
      Step catalog file (disk.content file.path) s entry s' → P s')
    (hs : P s) (h : addFile catalog disk s file = .ok s') : P s' :=
  foldlM_invariant_mem (P := P)
    (fun entry hentry s s' hs hadd => hstep entry hentry s s' hs (addEntry_eq_ok.1 hadd))
    (hnumber s hs) h

end SeriesStart

namespace Series

variable {catalog : SummaryCatalog} {files : List KeywordFile} {disk : Disk} {s : Series}

theorem valueAt_eq (s : Series) (disk : Disk) (position index : Nat) :
    s.valueAt disk position index =
      (s.catalog.getVariable position >>= fun _ => s.ministep index >>= fun m =>
        ((s.column? position).bind (·[index]?)).elim (readValue disk position m) .ok) := by
  unfold valueAt
  cases (s.column? position).bind (·[index]?) <;> rfl

def start (catalog : SummaryCatalog) : SeriesStart := ⟨(catalog.restartStep.getD 0).toNat, [], none⟩

theorem ofFiles_eq : ofFiles catalog files disk =
    (files.foldlM (SeriesStart.addFile catalog disk) (start catalog) >>= fun last =>
      .ok ⟨catalog, last.ministeps, []⟩) := rfl

theorem ofFiles_singleton (catalog : SummaryCatalog) (file : KeywordFile) (disk : Disk) :
    ofFiles catalog [file] disk =
      (file.catalog.entries.foldlM
        (SeriesStart.addEntry catalog file (disk.content file.path)) (start catalog) >>= fun last =>
          .ok ⟨catalog, last.ministeps, []⟩) := by
  simp only [ofFiles_eq, List.foldlM_cons, List.foldlM_nil, bind_pure]
  rfl

theorem ofFiles_invariant {P : SeriesStart → Prop}
    (hnumber : ∀ s : SeriesStart, P s → P { s with number := none })
    (hstep : ∀ file ∈ files, ∀ entry ∈ file.catalog.entries, ∀ s s', P s →
      SeriesStart.Step catalog file (disk.content file.path) s entry s' → P s')
    (hstart : P (start catalog)) (h : ofFiles catalog files disk = .ok s) :
    ∃ last, P last ∧ s = ⟨catalog, last.ministeps, []⟩ := by
  rw [ofFiles_eq] at h
  obtain ⟨last, hlast, h⟩ := bind_eq_ok.1 h
  cases h
  exact ⟨last, foldlM_invariant_mem (P := P) (fun file hfile s s' hs hadd =>
    SeriesStart.addFile_invariant hnumber (hstep file hfile) hs hadd) hstart hlast, rfl⟩

end Series

end Reservoir
