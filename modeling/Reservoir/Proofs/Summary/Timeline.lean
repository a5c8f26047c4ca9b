import Reservoir.Proofs.Summary.Opening
import Reservoir.Proofs.Summary.Parameters
import Reservoir.Proofs.Summary.Reports

/-!
A series as a run over keywords, however these are divided into files. Only the number that waits
for its values is forgotten where a file ends, so a cut anywhere else changes nothing. Every keyword
of values gives one ministep, in the report step that the keywords before it have counted up to.
-/

namespace Reservoir

open Outcome

namespace Keyword

variable {name : String} {k : Keyword}

theorem called_concat_of_eq (h : k.name.val = name) (ks : List Keyword) :
    called name (ks ++ [k]) = called name ks ++ [k] := by
  rw [called_append, called_cons, if_pos h]
  rfl

theorem called_concat_of_ne (h : k.name.val ≠ name) (ks : List Keyword) :
    called name (ks ++ [k]) = called name ks := by
  rw [called_append, called_cons, if_neg h]
  exact List.append_nil _

def markers (ks : List Keyword) : List String :=
  (names ks).filter fun name => name == "MINISTEP" || name == "PARAMS"

theorem markers_append (xs ys : List Keyword) : markers (xs ++ ys) = markers xs ++ markers ys := by
  simp [markers, names]

theorem markers_singleton_number (h : k.name.val = "MINISTEP") : markers [k] = ["MINISTEP"] := by
  simp [markers, names, h]

theorem markers_singleton_values (h : k.name.val = "PARAMS") : markers [k] = ["PARAMS"] := by
  simp [markers, names, h]

theorem markers_singleton_other (hnumber : k.name.val ≠ "MINISTEP")
    (hvalues : k.name.val ≠ "PARAMS") : markers [k] = [] := by
  simp [markers, names, hnumber, hvalues]

/-- Keywords are cut between a number and the values that follow it. -/
def Parts (before after : List Keyword) : Prop :=
  (markers before).getLast? = some "MINISTEP" ∧ (markers after).head? = some "PARAMS"

instance (before after : List Keyword) : Decidable (Parts before after) :=
  inferInstanceAs (Decidable (_ ∧ _))

end Keyword

open Keyword

/-- Two ministeps have the same number, report step and time, and the same values on a disk. -/
structure Ministep.Same (disk : Disk) (m n : Ministep) : Prop where
  number : m.number = n.number
  reportStep : m.reportStep = n.reportStep
  days : m.days = n.days
  value (position : Nat) : Series.readValue disk position m = Series.readValue disk position n

namespace SeriesStart

variable {catalog : SummaryCatalog} {disk : Disk} {file file' : KeywordFile} {e e' : Entry}
  {k : Keyword} {seen rest : List Keyword} {s t s' : SeriesStart}

/-- Two runs over the same keywords, one of which may have passed the ends of files. They can have
different numbers in wait only where no values take them. -/
structure Alongside (disk : Disk) (seen rest : List Keyword) (s t : SeriesStart) : Prop where
  reportStep : s.reportStep = t.reportStep
  ministeps : List.Forall₂ (Ministep.Same disk) s.ministeps t.ministeps
  number : (markers rest).head? = some "PARAMS" → s.number = t.number
  pending : t.number ≠ none → (markers seen).getLast? = some "MINISTEP"

namespace Alongside

theorem map_days (h : Alongside disk seen rest s t) :
    s.ministeps.map Ministep.days = t.ministeps.map Ministep.days :=
  List.forall₂_eq_eq_eq ▸ List.rel_map (fun _ _ hsame => hsame.days) h.ministeps

theorem cut (h : Alongside disk seen rest s t) (hcut : ¬Parts seen rest) :
    Alongside disk seen rest { s with number := none } t := by
  refine ⟨h.reportStep, h.ministeps, fun hvalues => ?_, h.pending⟩
  by_contra hne
  exact hcut ⟨h.pending (Ne.symm hne), hvalues⟩

theorem other (h : Alongside disk seen (k :: rest) s t) (hnumber : k.name.val ≠ "MINISTEP")
    (hvalues : k.name.val ≠ "PARAMS") : Alongside disk (seen ++ [k]) rest s t := by
  have hnone := markers_singleton_other hnumber hvalues
  refine ⟨h.reportStep, h.ministeps, fun hrest => h.number ?_, fun hpending => ?_⟩
  · rw [← List.singleton_append, markers_append, hnone]
    exact hrest
  · rw [markers_append, hnone, List.append_nil]
    exact h.pending hpending

theorem report (h : Alongside disk seen rest s t) :
    Alongside disk seen rest { s with reportStep := s.reportStep + 1 }
      { t with reportStep := t.reportStep + 1 } :=
  { h with reportStep := congrArg (· + 1) h.reportStep }

theorem announce (h : Alongside disk seen (k :: rest) s t) (hname : k.name.val = "MINISTEP")
    (number : Int32) : Alongside disk (seen ++ [k]) rest { s with number := some number.toInt }
      { t with number := some number.toInt } := by
  refine ⟨h.reportStep, h.ministeps, fun _ => rfl, fun _ => ?_⟩
  rw [markers_append, markers_singleton_number hname, List.getLast?_concat]

theorem push (h : Alongside disk seen (k :: rest) s t) (hname : k.name.val = "PARAMS")
    (he : file.Shows (disk.content file.path) e k)
    (he' : file'.Shows (disk.content file'.path) e' k) (days : Double) :
    Alongside disk (seen ++ [k]) rest (s.push file e days) (t.push file' e' days) := by
  have hnumber : s.number = t.number := by
    refine h.number ?_
    rw [← List.singleton_append, markers_append, markers_singleton_values hname]
    rfl
  have hlast : Ministep.Same disk
      ⟨file, e, s.number.getD s.ministeps.length, s.reportStep, days⟩
      ⟨file', e', t.number.getD t.ministeps.length, t.reportStep, days⟩ := by
    refine ⟨?_, h.reportStep, rfl, fun position => he.readParameter_congr he' position⟩
    simp only [hnumber, h.ministeps.length_eq]
  exact ⟨h.reportStep, List.rel_append h.ministeps (.cons hlast .nil), fun _ => rfl,
    fun hpending => absurd rfl hpending⟩

theorem addEntry (h : Alongside disk seen (k :: rest) s t)
    (he : file.Shows (disk.content file.path) e k)
    (he' : file'.Shows (disk.content file'.path) e' k) :
    Agree (Alongside disk (seen ++ [k]) rest)
      (addEntry catalog file (disk.content file.path) s e)
      (addEntry catalog file' (disk.content file'.path) t e') := by
  by_cases hreport : k.name.val = "SEQHDR"
  · rw [addEntry_report (he.name.trans hreport), addEntry_report (he'.name.trans hreport)]
    exact (h.other (by simp [hreport]) (by simp [hreport])).report
  by_cases hnumber : k.name.val = "MINISTEP"
  · rw [addEntry_number (he.name.trans hnumber), addEntry_number (he'.name.trans hnumber),
      he.readElement_congr he' rfl]
    refine (Agree.refl (R := Eq) (fun _ => rfl) _).bind fun number _ _ heq => ?_
    subst heq
    exact h.announce hnumber number
  by_cases hvalues : k.name.val = "PARAMS"
  · have hlast : s.ministeps.getLast?.map Ministep.days =
        t.ministeps.getLast?.map Ministep.days := by
      rw [← List.getLast?_map, ← List.getLast?_map, h.map_days]
    rw [addEntry_ministep (he.name.trans hvalues), addEntry_ministep (he'.name.trans hvalues),
      he.daysOf_congr he']
    refine (checkCount_agree (he.count.trans he'.count.symm) _ _).bind fun _ _ _ _ => ?_
    refine (Agree.refl (R := Eq) (fun _ => rfl) _).bind fun days _ _ heq => ?_
    subst heq
    refine (checkLater_agree hlast _ _ days).bind fun _ _ _ _ => ?_
    exact h.push hvalues he he' days
  · rw [← he.name] at hreport hnumber hvalues
    have hnames : e.name = e'.name := he.name.trans he'.name.symm
    rw [addEntry_other hreport hnumber hvalues,
      addEntry_other (hnames ▸ hreport) (hnames ▸ hnumber) (hnames ▸ hvalues)]
    exact h.other (he.name ▸ hnumber) (he.name ▸ hvalues)

/-- Files one by one go alongside their keywords in one stream, if no cut parts a number from its
values. -/
theorem addFiles {files : List KeywordFile} {pieces : List (List Keyword)}
    (hfiles : List.Forall₂ (fun file ks => file.Holds (disk.content file.path) ks) files pieces)
    {es : List Entry} (hes : List.Forall₂ (file.Shows (disk.content file.path)) es pieces.flatten)
    (hcuts : ∀ before after, pieces = before ++ after →
      ¬Parts (seen ++ before.flatten) after.flatten)
    (h : Alongside disk seen pieces.flatten s t) :
    Agree (Alongside disk (seen ++ pieces.flatten) []) (files.foldlM (addFile catalog disk) s)
      (es.foldlM (SeriesStart.addEntry catalog file (disk.content file.path)) t) := by
  induction hfiles generalizing es seen s t with
  | nil =>
    cases hes
    rw [List.flatten_nil, List.append_nil]
    exact h
  | @cons piece ks files pieces hpiece hfiles ih =>
    rw [List.flatten_cons] at hes h ⊢
    have hfront := List.forall₂_take_append _ _ _ hes
    have hback := List.forall₂_drop_append _ _ _ hes
    have hstart : Alongside disk seen (ks ++ pieces.flatten) { s with number := none } t := by
      refine h.cut ?_
      have hcut := hcuts [] (ks :: pieces) rfl
      rwa [List.flatten_nil, List.append_nil] at hcut
    rw [List.foldlM_cons, ← List.take_append_drop ks.length es, List.foldlM_append,
      ← List.append_assoc]
    refine Agree.bind (foldlM_agree (fun _ _ _ _ _ _ _ he he' hs => hs.addEntry he he')
      hpiece.shows hfront hstart) fun s' t' _ hnext => ?_
    refine ih hback (fun before after hpieces => ?_) hnext
    have hcut := hcuts (ks :: before) after (congrArg (ks :: ·) hpieces)
    rwa [List.flatten_cons, ← List.append_assoc] at hcut

end Alongside

/-- The report steps of the ministeps that keywords give: each as many after the first one as there
are beginnings of report steps before it. -/
def CountsReports (first : Nat) (seen : List Keyword) (steps : List Nat) : Prop :=
  ∀ before k after, seen = before ++ k :: after → k.name.val = "PARAMS" →
    steps[(called "PARAMS" before).length]? = some (first + (called "SEQHDR" before).length)

theorem CountsReports.concat {first : Nat} {steps next : List Nat}
    (h : CountsReports first seen steps) (hmore : steps <+: next)
    (hlast : k.name.val = "PARAMS" →
      next[(called "PARAMS" seen).length]? = some (first + (called "SEQHDR" seen).length)) :
    CountsReports first (seen ++ [k]) next := by
  obtain ⟨more, rfl⟩ := hmore
  intro before k' after hseen hname
  rcases List.eq_nil_or_concat' after with rfl | ⟨after, last, rfl⟩
  · obtain ⟨rfl, hk⟩ := List.append_inj' hseen rfl
    cases hk
    exact hlast hname
  · rw [← List.cons_append, ← List.append_assoc] at hseen
    have hstep := h before k' after (List.append_inj' hseen rfl).1 hname
    have hinside := (List.getElem?_eq_some_iff.1 hstep).1
    rw [List.getElem?_append_left hinside]
    exact hstep

/-- What the keywords so far have made of a start. -/
structure Tells (catalog : SummaryCatalog) (disk : Disk) (seen : List Keyword) (s : SeriesStart) :
    Prop where
  reportStep : s.reportStep = (Series.start catalog).reportStep + (called "SEQHDR" seen).length
  values : List.Forall₂
    (fun m k => ∀ position < catalog.size, Series.readValue disk position m = k.getDouble position)
    s.ministeps (called "PARAMS" seen)
  counts : CountsReports (Series.start catalog).reportStep seen
    (s.ministeps.map Ministep.reportStep)
  sorted : (s.ministeps.map Ministep.reportStep).Pairwise (· ≤ ·)
  reached : ∀ step ∈ s.ministeps.map Ministep.reportStep, step ≤ s.reportStep

namespace Tells

theorem other (h : Tells catalog disk seen s) (hreport : k.name.val ≠ "SEQHDR")
    (hvalues : k.name.val ≠ "PARAMS") : Tells catalog disk (seen ++ [k]) s := by
  refine ⟨?_, ?_, ?_, h.sorted, h.reached⟩
  · rw [called_concat_of_ne hreport]
    exact h.reportStep
  · rw [called_concat_of_ne hvalues]
    exact h.values
  · exact h.counts.concat List.prefix_rfl fun hname => absurd hname hvalues

theorem report (h : Tells catalog disk seen s) (hname : k.name.val = "SEQHDR") :
    Tells catalog disk (seen ++ [k]) { s with reportStep := s.reportStep + 1 } := by
  have hvalues : k.name.val ≠ "PARAMS" := by simp [hname]
  refine ⟨?_, ?_, ?_, h.sorted, fun step hstep => Nat.le_succ_of_le (h.reached step hstep)⟩
  · simp only [called_concat_of_eq hname, h.reportStep, List.length_append, List.length_singleton,
      Nat.add_assoc]
  · rw [called_concat_of_ne hvalues]
    exact h.values
  · exact h.counts.concat List.prefix_rfl fun hname => absurd hname hvalues

theorem push (h : Tells catalog disk seen s) (hname : k.name.val = "PARAMS")
    (he : file.Shows (disk.content file.path) e k) (hcount : e.count = catalog.size) {days : Double}
    (hdays : catalog.daysOf file (disk.content file.path) e = .ok days) :
    Tells catalog disk (seen ++ [k]) (s.push file e days) := by
  have hreport : k.name.val ≠ "SEQHDR" := by simp [hname]
  have hsteps : (s.push file e days).ministeps.map Ministep.reportStep =
      s.ministeps.map Ministep.reportStep ++ [s.reportStep] := by
    simp [SeriesStart.push]
  have hlength : (called "PARAMS" seen).length = (s.ministeps.map Ministep.reportStep).length := by
    rw [List.length_map, h.values.length_eq]
  refine ⟨?_, ?_, ?_, ?_, ?_⟩
  · rw [called_concat_of_ne hreport]
    exact h.reportStep
  · rw [called_concat_of_eq hname]
    refine List.rel_append h.values (.cons (fun position hposition => ?_) .nil)
    exact he.readParameter_eq_getDouble (KeywordFile.type_of_daysOf hdays)
      (he.count ▸ hcount ▸ hposition)
  · rw [hsteps]
    refine h.counts.concat (List.prefix_append _ _) fun _ => ?_
    rw [hlength, List.getElem?_concat_length, h.reportStep]
  · rw [hsteps, List.pairwise_append]
    refine ⟨h.sorted, List.pairwise_singleton _ _, fun step hstep last hlast => ?_⟩
    rw [List.mem_singleton.1 hlast]
    exact h.reached step hstep
  · rw [hsteps]
    intro step hstep
    rcases List.mem_append.1 hstep with hstep | hstep
    · exact h.reached step hstep
    · exact Nat.le_of_eq (List.mem_singleton.1 hstep)

theorem step (h : Tells catalog disk seen s) (he : file.Shows (disk.content file.path) e k)
    (hstep : Step catalog file (disk.content file.path) s e s') :
    Tells catalog disk (seen ++ [k]) s' := by
  cases hstep with
  | report hname => exact h.report (he.name ▸ hname)
  | number hname hread =>
    have hother := h.other (k := k) (by simp [← he.name, hname]) (by simp [← he.name, hname])
    exact { hother with }
  | ministep hname hcount hdays hlater => exact h.push (he.name ▸ hname) he hcount hdays
  | other hreport hnumber hministep => exact h.other (he.name ▸ hreport) (he.name ▸ hministep)

theorem addFile {ks : List Keyword} (h : Tells catalog disk seen s)
    (hfile : file.Holds (disk.content file.path) ks) (hadd : addFile catalog disk s file = .ok s') :
    Tells catalog disk (seen ++ ks) s' := by
  have hstart : Tells catalog disk seen { s with number := none } := { h with }
  exact foldlM_invariant_related (P := Tells catalog disk)
    (f := SeriesStart.addEntry catalog file (disk.content file.path))
    (fun _ _ _ _ _ he hs hnext => hs.step he (addEntry_eq_ok.1 hnext)) hfile.shows hstart hadd

end Tells

end SeriesStart

namespace Series

variable {catalog : SummaryCatalog} {disk : Disk} {files : List KeywordFile}
  {pieces : List (List Keyword)} {s t : Series}

theorem tells_start (catalog : SummaryCatalog) (disk : Disk) :
    SeriesStart.Tells catalog disk [] (start catalog) where
  reportStep := rfl
  values := .nil
  counts before k after hnil := by simp at hnil
  sorted := .nil
  reached step hstep := absurd hstep List.not_mem_nil

theorem tells_of_ofFiles
    (hfiles : List.Forall₂ (fun file ks => file.Holds (disk.content file.path) ks) files pieces)
    (h : ofFiles catalog files disk = .ok s) :
    ∃ last, SeriesStart.Tells catalog disk pieces.flatten last ∧
      s = ⟨catalog, last.ministeps, []⟩ := by
  rw [ofFiles_eq] at h
  obtain ⟨last, hlast, h⟩ := bind_eq_ok.1 h
  cases h
  have hbegin : SeriesStart.Tells catalog disk (List.flatten []) (start catalog) :=
    tells_start catalog disk
  have htells := foldlM_invariant_related
    (P := fun parts s => SeriesStart.Tells catalog disk (List.flatten parts) s)
    (fun seen file ks s s' hfile hs hadd => by
      rw [List.flatten_append, List.flatten_singleton]
      exact hs.addFile hfile hadd) hfiles hbegin hlast
  exact ⟨last, htells, rfl⟩

theorem valueAt_of_ministeps (ms : List Ministep) (position index : Nat) :
    valueAt ⟨catalog, ms, []⟩ disk position index =
      (catalog.getVariable position >>= fun _ =>
        ministep ⟨catalog, ms, []⟩ index >>= readValue disk position) := rfl

theorem valueAt_congr {ms ns : List Ministep} (h : List.Forall₂ (Ministep.Same disk) ms ns)
    (position index : Nat) :
    valueAt ⟨catalog, ms, []⟩ disk position index =
      valueAt ⟨catalog, ns, []⟩ disk position index := by
  have hsame := rel_getElem? h index
  simp only [valueAt_of_ministeps, ministep, size, h.length_eq]
  generalize ms[index]? = m, ns[index]? = n at hsame ⊢
  cases hsame with
  | none => rfl
  | some hvalue => simp only [ok_bind, hvalue.value]

/-- Opening the files one after another is opening their keywords in one file. -/
theorem ofFiles_agree_unified
    (hfiles : List.Forall₂ (fun file ks => file.Holds (disk.content file.path) ks) files pieces)
    {unified : KeywordFile} (hunified : unified.Holds (disk.content unified.path) pieces.flatten)
    (hcuts : ∀ before after, pieces = before ++ after → ¬Parts before.flatten after.flatten) :
    Agree (fun s t => s.times = t.times ∧ s.reportSteps = t.reportSteps ∧ s.numbers = t.numbers ∧
        ∀ position index, s.valueAt disk position index = t.valueAt disk position index)
      (ofFiles catalog files disk) (ofFiles catalog [unified] disk) := by
  have hstart : SeriesStart.Alongside disk [] pieces.flatten (start catalog) (start catalog) :=
    ⟨rfl, .nil, fun _ => rfl, fun hpending => absurd rfl hpending⟩
  rw [ofFiles_eq, ofFiles_singleton]
  refine (hstart.addFiles hfiles hunified.shows hcuts).bind fun last last' _ h => ?_
  have hmap {α : Type} (f : Ministep → α) (hf : ∀ m n, Ministep.Same disk m n → f m = f n) :
      last.ministeps.map f = last'.ministeps.map f :=
    List.forall₂_eq_eq_eq ▸ List.rel_map hf h.ministeps
  exact ⟨hmap _ fun _ _ hsame => hsame.days, hmap _ fun _ _ hsame => hsame.reportStep,
    hmap _ fun _ _ hsame => hsame.number, valueAt_congr h.ministeps⟩

/-- A series does not depend on how its keywords are divided into files, as long as no cut parts a
number from its values: either both ways of opening fail with a fault of one kind, or both give the
same times, report steps, numbers and values. Every keyword of values gives one ministep in order,
whose report step is as many after the one the run goes on from as there are beginnings of report
steps before the keyword. So report steps never fall, and the ministeps of each one are those from
its first to its last. -/
theorem ofFiles_of_pieces
    (hfiles : List.Forall₂ (fun file ks => file.Holds (disk.content file.path) ks) files pieces)
    (catalog : SummaryCatalog) :
    (∀ unified : KeywordFile, unified.Holds (disk.content unified.path) pieces.flatten →
      (∀ before after, pieces = before ++ after → ¬Parts before.flatten after.flatten) →
      Agree (fun s t => s.times = t.times ∧ s.reportSteps = t.reportSteps ∧
          s.numbers = t.numbers ∧
          ∀ position index, s.valueAt disk position index = t.valueAt disk position index)
        (ofFiles catalog files disk) (ofFiles catalog [unified] disk)) ∧
    ∀ s, ofFiles catalog files disk = .ok s →
      s.size = (called "PARAMS" pieces.flatten).length ∧
      (∀ before k after, pieces.flatten = before ++ k :: after → k.name.val = "PARAMS" →
        s.reportSteps[(called "PARAMS" before).length]? =
          some ((catalog.restartStep.getD 0).toNat + (called "SEQHDR" before).length) ∧
        ∀ position < catalog.size,
          s.valueAt disk position (called "PARAMS" before).length = k.getDouble position) ∧
      s.reportSteps.Pairwise (· ≤ ·) ∧
      ∀ step ∈ s.reportSteps, ∃ first last, s.firstOfReport step = .ok first ∧
        s.lastOfReport step = .ok last ∧
        ∀ index, s.reportSteps[index]? = some step ↔ first ≤ index ∧ index ≤ last := by
  refine ⟨fun unified hunified hcuts => ofFiles_agree_unified hfiles hunified hcuts, fun s h => ?_⟩
  obtain ⟨last, htells, rfl⟩ := tells_of_ofFiles hfiles h
  refine ⟨htells.values.length_eq, fun before k after hpieces hname => ⟨?_, ?_⟩, htells.sorted,
    fun step hstep => exists_report_places htells.sorted.sortedLE hstep⟩
  · exact htells.counts before k after hpieces hname
  · intro position hposition
    have hat : (called "PARAMS" pieces.flatten)[(called "PARAMS" before).length]? = some k := by
      rw [hpieces, called_append, called_cons, if_pos hname,
        List.getElem?_append_right (Nat.le_refl _), Nat.sub_self, List.getElem?_cons_zero]
    have hvalues := rel_getElem? htells.values (called "PARAMS" before).length
    have hvariable : ∃ v, catalog.getVariable position = .ok v := by
      simp only [SummaryCatalog.getVariable, SummaryCatalog.atPosition?,
        List.getElem?_eq_getElem hposition]
      exact ⟨_, rfl⟩
    obtain ⟨v, hv⟩ := hvariable
    rw [hat] at hvalues
    simp only [valueAt_of_ministeps, ministep, hv, ok_bind]
    generalize last.ministeps[(called "PARAMS" before).length]? = m at hvalues ⊢
    cases hvalues with
    | some hvalue => exact hvalue position hposition

/-- Two ministeps of one report step, in a file each and in one file together. -/
theorem ofFiles_of_pieces_two :
    let word (n : Int32) : Bytes := Element.encode n
    let number (n : Int32) : Keyword := ⟨⟨"MINISTEP", by decide⟩, .int, 1, word n, .inl rfl⟩
    let report : Keyword := ⟨⟨"SEQHDR", by decide⟩, .int, 1, word 0, .inl rfl⟩
    let days (x : Double) : Keyword :=
      ⟨⟨"PARAMS", by decide⟩, .double, 1, Element.encode x, .inl rfl⟩
    let one : Double := ⟨0x3ff0000000000000⟩
    let two : Double := ⟨0x4000000000000000⟩
    let catalog : SummaryCatalog :=
      ⟨[⟨"TIME", none, 0, "DAYS", none, none⟩], ⟨1, 1, 1⟩, some 4, none,
        .gregorian, .midnight ⟨2000, 1, 1⟩, ":"⟩
    let pieces := [[report, number 7, days one], [number 8, days two]]
    let stored (ks : List Keyword) : Bytes := ks.flatMap (Records.bytesOf .big)
    let file (path : String) (es : List Entry) : KeywordFile := ⟨path, .binary .big, 0, ⟨es⟩⟩
    let first := file "RUN.S0001"
      [⟨"SEQHDR", .int, 1, 0, 24, 0⟩, ⟨"MINISTEP", .int, 1, 36, 60, 0⟩,
        ⟨"PARAMS", .double, 1, 72, 96, 0⟩]
    let second := file "RUN.S0002"
      [⟨"MINISTEP", .int, 1, 0, 24, 0⟩, ⟨"PARAMS", .double, 1, 36, 60, 0⟩]
    let unified := file "RUN.UNSMRY"
      [⟨"SEQHDR", .int, 1, 0, 24, 0⟩, ⟨"MINISTEP", .int, 1, 36, 60, 0⟩,
        ⟨"PARAMS", .double, 1, 72, 96, 0⟩, ⟨"MINISTEP", .int, 1, 112, 136, 1⟩,
        ⟨"PARAMS", .double, 1, 148, 172, 1⟩]
    let disk : Disk :=
      ⟨[("RUN.S0001", stored [report, number 7, days one]),
        ("RUN.S0002", stored [number 8, days two]), ("RUN.UNSMRY", stored pieces.flatten)]⟩
    ∃ s t, ofFiles catalog [first, second] disk = .ok s ∧ ofFiles catalog [unified] disk = .ok t ∧
      s.numbers = [7, 8] ∧ t.numbers = [7, 8] ∧ s.reportSteps[1]? = some 5 ∧
      s.valueAt disk 0 1 = .ok two ∧
      ∃ first last, s.firstOfReport 5 = .ok first ∧ s.lastOfReport 5 = .ok last ∧
        ∀ index, s.reportSteps[index]? = some 5 ↔ first ≤ index ∧ index ≤ last := by
  intro word number report days one two catalog pieces stored file first second unified disk
  have hfiles : List.Forall₂ (fun file ks => file.Holds (disk.content file.path) ks)
      [first, second] pieces :=
    .cons ⟨by decide +kernel, by decide +kernel⟩
      (.cons ⟨by decide +kernel, by decide +kernel⟩ .nil)
  have hunified : unified.Holds (disk.content unified.path) pieces.flatten :=
    ⟨by decide +kernel, by decide +kernel⟩
  have hcuts : ∀ before after, pieces = before ++ after →
      ¬Parts before.flatten after.flatten := by
    have hplaces : ∀ n < 3, ¬Parts (pieces.take n).flatten (pieces.drop n).flatten := by
      decide +kernel
    intro before after h
    have hcut := hplaces before.length (by
      have hlength : pieces.length = before.length + after.length := by
        rw [h, List.length_append]
      exact Nat.lt_succ_of_le (Nat.le.intro hlength.symm))
    rwa [h, List.take_left, List.drop_left] at hcut
  have hnumbers : (ofFiles catalog [first, second] disk).map Series.numbers = .ok [7, 8] := by
    decide +kernel
  have hpieces : pieces.flatten = [report, number 7, days one, number 8] ++ [days two] := rfl
  -- From here on the files are whatever holds the keywords.
  clear_value first second unified disk
  obtain ⟨s, hs, hsnumbers⟩ := map_eq_ok.1 hnumbers
  obtain ⟨hunited, htells⟩ := ofFiles_of_pieces hfiles catalog
  obtain ⟨t, ht, -, -, htnumbers, -⟩ := (hunited unified hunified hcuts).of_ok hs
  obtain ⟨-, hvalues, -, hplaces⟩ := htells s hs
  obtain ⟨hstep, hvalue⟩ := hvalues _ (days two) [] hpieces rfl
  refine ⟨s, t, hs, ht, hsnumbers, htnumbers ▸ hsnumbers, hstep, ?_,
    hplaces 5 (List.mem_of_getElem? hstep)⟩
  rw [show s.valueAt disk 0 1 = (days two).getDouble 0 from hvalue 0 (by decide)]
  decide +kernel

end Series

end Reservoir
