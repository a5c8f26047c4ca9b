import Reservoir.Proofs.Stream.Holding
import Reservoir.Proofs.Summary.Opening
import Reservoir.Summary.Query

/-!
Columns that a series keeps. Only the answer to a question for a whole column adds one, and none
is ever taken away or changed. While the files stay as they are the columns hold what is stored, so
every answer is the one of the series as it was opened.
-/

namespace Reservoir

open Outcome

def SameFiles (files : List KeywordFile) (disk disk' : Disk) : Prop :=
  ∀ file ∈ files, disk'.content file.path = disk.content file.path

namespace SeriesStart

variable {catalog : SummaryCatalog} {file : KeywordFile} {files : List KeywordFile}
  {disk disk' : Disk} {s s' : SeriesStart}

/-- All ministeps are stored in some of the files. -/
def Within (files : List KeywordFile) (s : SeriesStart) : Prop :=
  ∀ m ∈ s.ministeps, m.file ∈ files

theorem Within.step (hfile : file ∈ files) (h : s.Within files) {stream : Bytes} {entry : Entry}
    (hstep : Step catalog file stream s entry s') : s'.Within files := by
  cases hstep with
  | report hname => exact h
  | number hname hread => exact h
  | ministep hname hcount hdays hlater =>
    intro m hm
    rcases List.mem_append.1 hm with hm | hm
    · exact h m hm
    · rw [List.mem_singleton.1 hm]
      exact hfile
  | other hreport hnumber hministep => exact h

theorem addFile_congr (h : disk'.content file.path = disk.content file.path) (s : SeriesStart) :
    addFile catalog disk' s file = addFile catalog disk s file := by
  rw [SeriesStart.addFile, h]
  rfl

end SeriesStart

namespace Series

variable {catalog : SummaryCatalog} {files : List KeywordFile} {disk disk' : Disk}
  {s t : Series} {query : Query} {position : Nat} {values : List Double}

theorem ofFiles_eq_ok (h : ofFiles catalog files disk = .ok s) :
    s.catalog = catalog ∧ s.columns = [] ∧ ∀ m ∈ s.ministeps, m.file ∈ files := by
  obtain ⟨last, hwithin, rfl⟩ := ofFiles_invariant (P := SeriesStart.Within files) (fun _ hs => hs)
    (fun file hfile _ _ _ _ hs hstep => hs.step hfile hstep)
    (fun m hm => absurd hm List.not_mem_nil) h
  exact ⟨rfl, rfl, hwithin⟩

theorem ofFiles_of_ministeps {ms : List Ministep}
    (h : (ofFiles catalog files disk).map Series.ministeps = .ok ms) :
    ofFiles catalog files disk = .ok ⟨catalog, ms, []⟩ := by
  obtain ⟨s, hopen, rfl⟩ := map_eq_ok.1 h
  obtain ⟨rfl, hcolumns, -⟩ := ofFiles_eq_ok hopen
  rw [hopen, ← hcolumns]

theorem ofFiles_congr (h : SameFiles files disk disk') :
    ofFiles catalog files disk' = ofFiles catalog files disk := by
  have hfile : ∀ file ∈ files, ∀ s,
      SeriesStart.addFile catalog disk' s file = SeriesStart.addFile catalog disk s file :=
    fun file hmem => SeriesStart.addFile_congr (h file hmem)
  simp only [ofFiles, foldlM_congr hfile]

def fresh (s : Series) : Series := { s with columns := [] }

theorem fresh_of_ofFiles (h : ofFiles catalog files disk = .ok s) : s.fresh = s := by
  obtain ⟨-, hcolumns, -⟩ := ofFiles_eq_ok h
  simp only [fresh, ← hcolumns]

theorem column?_cons (s : Series) (position : Nat) (values : List Double) (other : Nat) :
    column? { s with columns := (position, values) :: s.columns } other =
      if other = position then some values else s.column? other := by
  by_cases h : other = position
  · simp [column?, h]
  · simp [column?, List.lookup_cons, beq_eq_false_iff_ne.2 h, h]

theorem column_eq_ok :
    s.column disk position = .ok (t, values) ↔ (∃ v, s.catalog.getVariable position = .ok v) ∧
      (s.column? position = some values ∧ t = s ∨
        s.column? position = none ∧ s.ministeps.mapM (readValue disk position) = .ok values ∧
          t = { s with columns := (position, values) :: s.columns }) := by
  rw [column, bind_eq_ok, ← exists_and_right]
  refine exists_congr fun v => and_congr_right fun _ => ?_
  cases s.column? position with
  | some kept =>
    simp only [pure_eq, Except.ok.injEq, Prod.mk.injEq, Option.some.injEq, reduceCtorEq, false_and,
      or_false]
    rw [and_comm, @eq_comm _ s t]
  | none =>
    simp only [bind_eq_ok, pure_eq, Except.ok.injEq, Prod.mk.injEq, reduceCtorEq, false_and,
      false_or, true_and]
    constructor
    · rintro ⟨read, hread, rfl, rfl⟩
      exact ⟨hread, rfl⟩
    · rintro ⟨hread, rfl⟩
      exact ⟨values, hread, rfl, rfl⟩

theorem ask_of_columnOf? (h : query.columnOf? s.catalog = some position) :
    s.ask disk query = s.settle .column (s.column disk position) := by
  cases query with
  | column other =>
    cases h
    rfl
  | columnNamed key =>
    have hkey : s.catalog.position? key = some position := h
    simp only [ask, columnNamed?, hkey]
    cases s.column disk position <;> rfl
  | _ => cases h

theorem ask_of_columnOf?_none (h : query.columnOf? s.catalog = none) :
    (s.ask disk query).2 = s := by
  cases query with
  | column other => cases h
  | columnNamed key =>
    have hkey : s.catalog.position? key = none := h
    simp only [ask, columnNamed?, hkey, settle]
  | _ => rfl

theorem ask_column_eq_ok (h : query.columnOf? s.catalog = some position) :
    s.ask disk query = (.ok (.column values), t) ↔ s.column disk position = .ok (t, values) := by
  rw [ask_of_columnOf? h]
  cases s.column disk position with
  | error fault => simp [settle]
  | ok result => simp [settle, Prod.ext_iff, and_comm]

/-- A question leaves a series as it is, or it was for a column that was not kept and now is. -/
theorem ask_cases (s : Series) (disk : Disk) (query : Query) :
    (s.ask disk query).2 = s ∨
      ∃ position values, query.columnOf? s.catalog = some position ∧
        s.column? position = none ∧ s.ministeps.mapM (readValue disk position) = .ok values ∧
        s.ask disk query =
          (.ok (.column values), { s with columns := (position, values) :: s.columns }) := by
  cases hquery : query.columnOf? s.catalog with
  | none => exact .inl (ask_of_columnOf?_none hquery)
  | some position =>
    rw [ask_of_columnOf? hquery]
    cases hcolumn : s.column disk position with
    | error fault => exact .inl rfl
    | ok result =>
      obtain ⟨t, values⟩ := result
      obtain ⟨-, ⟨-, rfl⟩ | ⟨hnone, hread, rfl⟩⟩ := column_eq_ok.1 hcolumn
      · exact .inl rfl
      · exact .inr ⟨position, values, rfl, hnone, hread, rfl⟩

theorem ask_fresh (s : Series) (disk : Disk) (query : Query) :
    (s.ask disk query).2.fresh = s.fresh := by
  obtain h | ⟨position, values, -, -, -, h⟩ := s.ask_cases disk query
  · rw [h]
  · rw [h]
    rfl

theorem ask_ministeps (s : Series) (disk : Disk) (query : Query) :
    (s.ask disk query).2.ministeps = s.ministeps := by
  change (s.ask disk query).2.fresh.ministeps = s.ministeps
  rw [ask_fresh]
  rfl

theorem ask_of_error {fault : Fault} (h : (s.ask disk query).1 = .error fault) :
    (s.ask disk query).2 = s := by
  obtain hsame | ⟨position, values, -, -, -, hask⟩ := s.ask_cases disk query
  · exact hsame
  · rw [hask] at h
    cases h

theorem column?_ask (h : s.column? position = some values) (disk : Disk) (query : Query) :
    (s.ask disk query).2.column? position = some values := by
  obtain hask | ⟨other, read, -, hnone, -, hask⟩ := s.ask_cases disk query
  · rw [hask, h]
  · have hne : position ≠ other := by
      rintro rfl
      rw [h] at hnone
      cases hnone
    rw [hask, column?_cons, if_neg hne, h]

theorem column?_of_ask (h : (s.ask disk query).2.column? position = some values) :
    s.column? position = some values ∨ query.columnOf? s.catalog = some position ∧
      s.ministeps.mapM (readValue disk position) = .ok values ∧
      (s.ask disk query).1 = .ok (.column values) := by
  obtain hask | ⟨other, read, hquery, -, hread, hask⟩ := s.ask_cases disk query
  · rw [hask] at h
    exact .inl h
  · rw [hask, column?_cons] at h
    split at h
    · next heq =>
      cases h
      rw [heq, hask]
      exact .inr ⟨hquery, hread, rfl⟩
    · exact .inl h

theorem column?_of_answer (hquery : query.columnOf? s.catalog = some position)
    (h : (s.ask disk query).1 = .ok (.column values)) :
    (∃ v, s.catalog.getVariable position = .ok v) ∧
      (s.ask disk query).2.column? position = some values := by
  have hask : s.ask disk query = (.ok (.column values), (s.ask disk query).2) := Prod.ext h rfl
  obtain ⟨hvariable, ⟨hkept, hsame⟩ | ⟨-, -, hnext⟩⟩ :=
    column_eq_ok.1 ((ask_column_eq_ok hquery).1 hask)
  · exact ⟨hvariable, hsame.symm ▸ hkept⟩
  · exact ⟨hvariable, by rw [hnext, column?_cons, if_pos rfl]⟩

/-- A column that is kept has a value for every ministep. -/
def Whole (s : Series) : Prop :=
  ∀ position values, s.column? position = some values → values.length = s.size

/-- The columns that are kept hold what is stored on the disk. -/
def Current (disk : Disk) (s : Series) : Prop :=
  ∀ position values, s.column? position = some values →
    s.ministeps.mapM (readValue disk position) = .ok values

theorem whole_fresh (s : Series) : s.fresh.Whole := by
  intro position values h
  cases h

theorem current_fresh (disk : Disk) (s : Series) : s.fresh.Current disk := by
  intro position values h
  cases h

theorem Whole.ask (h : s.Whole) (disk : Disk) (query : Query) : (s.ask disk query).2.Whole := by
  intro position values hkept
  rw [size, ask_ministeps]
  obtain hkept | ⟨-, hread, -⟩ := column?_of_ask hkept
  · exact h position values hkept
  · exact (mapM_eq_ok.1 hread).length_eq.symm

theorem readValue_congr (h : SameFiles files disk disk') {m : Ministep} (hm : m.file ∈ files)
    (position : Nat) : readValue disk' position m = readValue disk position m := by
  rw [readValue, h m.file hm]
  rfl

theorem mapM_readValue_congr (h : SameFiles files disk disk') {ms : List Ministep}
    (hms : ∀ m ∈ ms, m.file ∈ files) (position : Nat) :
    ms.mapM (readValue disk' position) = ms.mapM (readValue disk position) := by
  induction ms with
  | nil => rfl
  | cons m ms ih =>
    simp only [List.mem_cons, forall_eq_or_imp] at hms
    rw [List.mapM_cons, List.mapM_cons, readValue_congr h hms.1, ih hms.2]

theorem Current.ask (h : s.Current disk) (hfiles : ∀ m ∈ s.ministeps, m.file ∈ files)
    (hsame : SameFiles files disk disk') (query : Query) :
    (s.ask disk' query).2.Current disk := by
  intro position values hkept
  rw [ask_ministeps]
  obtain hkept | ⟨-, hread, -⟩ := column?_of_ask hkept
  · exact h position values hkept
  · rw [← hread, mapM_readValue_congr hsame hfiles]

theorem valueAt_of_current (h : s.Current disk) (position index : Nat) :
    s.valueAt disk position index = s.fresh.valueAt disk position index := by
  have hkept : ∀ m, s.ministeps[index]? = some m →
      ((s.column? position).bind (·[index]?)).elim (readValue disk position m) .ok =
        readValue disk position m := by
    intro m hm
    cases hcolumn : s.column? position with
    | none => rfl
    | some values =>
      have hvalue := rel_getElem? (mapM_eq_ok.1 (h position values hcolumn)) index
      rw [hm] at hvalue
      rw [Option.bind_some]
      generalize values[index]? = value at hvalue ⊢
      cases hvalue with
      | some hread => exact hread.symm
  have hfresh : s.fresh.valueAt disk position index = (s.catalog.getVariable position >>= fun _ =>
      s.ministep index >>= readValue disk position) := rfl
  rw [valueAt_eq, hfresh]
  congr 1
  funext v
  unfold ministep
  cases hm : s.ministeps[index]? with
  | none => rfl
  | some m => exact hkept m hm

theorem ask_fst_of_columnOf? (h : query.columnOf? s.catalog = some position) :
    (s.ask disk query).1 = ((s.column disk position).map Prod.snd).map Answer.column := by
  rw [ask_of_columnOf? h]
  cases s.column disk position <;> rfl

theorem column_of_current (h : s.Current disk) (position : Nat) :
    (s.column disk position).map Prod.snd = (s.fresh.column disk position).map Prod.snd := by
  have hfresh : s.fresh.column disk position = (s.catalog.getVariable position >>= fun _ =>
      s.ministeps.mapM (readValue disk position) >>= fun values =>
        .ok ({ s.fresh with columns := [(position, values)] }, values)) := rfl
  rw [hfresh, column]
  cases s.catalog.getVariable position with
  | error fault => rfl
  | ok v =>
    cases hcolumn : s.column? position with
    | none =>
      simp only [ok_bind]
      cases s.ministeps.mapM (readValue disk position) <;> rfl
    | some values =>
      simp only [ok_bind, h position values hcolumn]
      rfl

/-- While the columns hold what is stored, every answer is the one of the series without them. -/
theorem ask_of_current (h : s.Current disk) (query : Query) :
    (s.ask disk query).1 = (s.fresh.ask disk query).1 := by
  have hvalue : s.valueAt disk = s.fresh.valueAt disk := by
    funext position index
    exact valueAt_of_current h position index
  cases hquery : query.columnOf? s.catalog with
  | some position =>
    rw [ask_fst_of_columnOf? hquery, ask_fst_of_columnOf? (s := s.fresh) hquery,
      column_of_current h position]
  | none =>
    cases query with
    | column position => cases hquery
    | columnNamed key =>
      have hkey : s.catalog.position? key = none := hquery
      have hkey' : s.fresh.catalog.position? key = none := hquery
      simp only [ask, columnNamed?, hkey, hkey', settle]
    | value position index => simp only [ask, hvalue]
    | valueAtTime position days =>
      simp only [ask, valueAtTime, hvalue]
      rfl
    | valueAtReport position step =>
      simp only [ask, valueAtReport, hvalue]
      rfl
    | interpolated position days =>
      simp only [ask, interpolate, hvalue]
      rfl

theorem valueAt_of_kept (hwhole : s.Whole) (hvariable : ∃ v, s.catalog.getVariable position = .ok v)
    (h : s.column? position = some values) (disk : Disk) {index : Nat}
    (hindex : index < values.length) : s.valueAt disk position index = .ok values[index] := by
  obtain ⟨v, hv⟩ := hvariable
  have hm : index < s.ministeps.length := Nat.lt_of_lt_of_eq hindex (hwhole position values h)
  simp only [valueAt, hv, ministep, List.getElem?_eq_getElem hm, ok_bind, h, Option.bind_some,
    List.getElem?_eq_getElem hindex, pure_eq]

theorem column_eq_valueAt (hwhole : s.Whole) (disk : Disk) (position : Nat) :
    (s.column disk position).map Prod.snd = (s.catalog.getVariable position >>= fun _ =>
      (List.range s.size).mapM (s.valueAt disk position)) := by
  rw [column]
  cases hv : s.catalog.getVariable position with
  | error fault => rfl
  | ok v =>
    cases hcolumn : s.column? position with
    | some values =>
      have hvalues : values.mapM Except.ok =
          (List.range values.length).mapM (s.valueAt disk position) :=
        mapM_eq_range fun i hi => valueAt_of_kept hwhole ⟨v, hv⟩ hcolumn disk hi
      rw [hwhole position values hcolumn] at hvalues
      have hpure : values.mapM Except.ok = (Except.ok values : Outcome (List Double)) := by
        simpa using List.mapM_pure (m := Outcome) (l := values) (f := id)
      simp only [ok_bind, ← hvalues, hpure]
      rfl
    | none =>
      have hvalues : s.ministeps.mapM (readValue disk position) =
          (List.range s.size).mapM (s.valueAt disk position) := by
        refine mapM_eq_range fun i hi => ?_
        simp only [valueAt, hv, ministep, List.getElem?_eq_getElem hi, ok_bind, hcolumn,
          Option.bind_none]
      simp only [ok_bind, ← hvalues]
      cases s.ministeps.mapM (readValue disk position) <;> rfl

theorem after_append (s : Series) (history later : List (Disk × Query)) :
    s.after (history ++ later) = (s.after history).after later :=
  List.foldl_append ..

theorem after_concat (s : Series) (history : List (Disk × Query)) (past : Disk × Query) :
    s.after (history ++ [past]) = ((s.after history).ask past.1 past.2).2 :=
  s.after_append history [past]

theorem after_fresh (s : Series) (history : List (Disk × Query)) :
    (s.after history).fresh = s.fresh := by
  induction history using List.reverseRecOn with
  | nil => rfl
  | append_singleton history past ih => rw [after_concat, ask_fresh, ih]

theorem after_catalog (s : Series) (history : List (Disk × Query)) :
    (s.after history).catalog = s.catalog := by
  change (s.after history).fresh.catalog = s.catalog
  rw [after_fresh]
  rfl

theorem after_ministeps (s : Series) (history : List (Disk × Query)) :
    (s.after history).ministeps = s.ministeps := by
  change (s.after history).fresh.ministeps = s.ministeps
  rw [after_fresh]
  rfl

theorem after_size (s : Series) (history : List (Disk × Query)) :
    (s.after history).size = s.size := by
  rw [size, after_ministeps, size]

theorem Whole.after (h : s.Whole) (history : List (Disk × Query)) : (s.after history).Whole := by
  induction history using List.reverseRecOn with
  | nil => exact h
  | append_singleton history past ih =>
    rw [after_concat]
    exact ih.ask past.1 past.2

theorem Current.after (h : s.Current disk) (hfiles : ∀ m ∈ s.ministeps, m.file ∈ files)
    {history : List (Disk × Query)} (hsame : ∀ past ∈ history, SameFiles files disk past.1) :
    (s.after history).Current disk := by
  induction history using List.reverseRecOn with
  | nil => exact h
  | append_singleton history past ih =>
    rw [after_concat]
    have hbefore := ih fun other hother => hsame other (List.mem_append_left _ hother)
    have hlast := hsame past (List.mem_append_right _ (List.mem_singleton.2 rfl))
    exact hbefore.ask (after_ministeps s history ▸ hfiles) hlast past.2

theorem column?_after (h : s.column? position = some values) (history : List (Disk × Query)) :
    (s.after history).column? position = some values := by
  induction history using List.reverseRecOn with
  | nil => exact h
  | append_singleton history past ih =>
    rw [after_concat]
    exact column?_ask ih past.1 past.2

theorem column?_of_after {history : List (Disk × Query)}
    (h : (s.after history).column? position = some values) :
    s.column? position = some values ∨ ∃ before past query later,
      history = before ++ (past, query) :: later ∧ query.columnOf? s.catalog = some position ∧
        ((s.after before).ask past query).1 = .ok (.column values) := by
  induction history using List.reverseRecOn with
  | nil => exact .inl h
  | append_singleton history past ih =>
    rw [after_concat] at h
    obtain hbefore | ⟨hquery, -, hanswer⟩ := column?_of_ask h
    · obtain hstart | ⟨before, disk, query, later, rfl, hcolumn⟩ := ih hbefore
      · exact .inl hstart
      · exact .inr ⟨before, disk, query, later ++ [past], List.append_assoc .., hcolumn⟩
    · rw [after_catalog] at hquery
      exact .inr ⟨history, past.1, past.2, [], rfl, hquery, hanswer⟩

theorem kept_of_history {before : List (Disk × Query)} {past : Disk}
    (hquery : query.columnOf? s.catalog = some position)
    (h : ((s.after before).ask past query).1 = .ok (.column values)) (later : List (Disk × Query)) :
    (∃ v, s.catalog.getVariable position = .ok v) ∧
      (s.after (before ++ (past, query) :: later)).column? position = some values := by
  rw [← after_catalog s before] at hquery
  obtain ⟨hvariable, hkept⟩ := column?_of_answer hquery h
  rw [after_catalog] at hvariable
  have hnext : s.after (before ++ (past, query) :: later) =
      ((s.after before).ask past query).2.after later := s.after_append before _
  rw [hnext]
  exact ⟨hvariable, column?_after hkept later⟩

/-- Keeping columns shows in no answer while the files stay as they were opened: each one is the
answer of the series opened anew. Whatever happens to the files, a column is what its values are
one by one, and once it has been an answer it stays the answer; a fault changes nothing, and
nothing else than answers is kept. -/
theorem ask_agrees_fresh (hopen : ofFiles catalog files disk = .ok s)
    (history : List (Disk × Query)) :
    ((∀ past ∈ history, SameFiles files disk past.1) →
      ∀ now, SameFiles files disk now → ∀ query,
        ∃ opened, ofFiles catalog files now = .ok opened ∧
          ((s.after history).ask now query).1 = (opened.ask now query).1) ∧
    (∀ now position, ((s.after history).ask now (.column position)).1 = do
      let _ ← catalog.getVariable position
      let values ← (List.range s.size).mapM ((s.after history).valueAt now position)
      return .column values) ∧
    (∀ before past query later position values, history = before ++ (past, query) :: later →
      query.columnOf? catalog = some position →
      ((s.after before).ask past query).1 = .ok (.column values) →
      ∀ now, ((s.after history).ask now (.column position)).1 = .ok (.column values) ∧
        values.length = s.size ∧
        ∀ (index : Nat) (h : index < values.length),
          ((s.after history).ask now (.value position index)).1 = .ok (.value values[index])) ∧
    (∀ now query fault, ((s.after history).ask now query).1 = .error fault →
      ((s.after history).ask now query).2 = s.after history) ∧
    ∀ position, (s.after history).isCached position ↔ ∃ before past query later values,
      history = before ++ (past, query) :: later ∧ query.columnOf? catalog = some position ∧
        ((s.after before).ask past query).1 = .ok (.column values) := by
  obtain ⟨rfl, hcolumns, hfiles⟩ := ofFiles_eq_ok hopen
  have hfresh := fresh_of_ofFiles hopen
  have hwhole : (s.after history).Whole := Whole.after (hfresh ▸ s.whole_fresh) history
  refine ⟨fun hsame now hnow query => ⟨s, ?_, ?_⟩, fun now position => ?_, ?_, ?_,
    fun position => ⟨fun h => ?_, ?_⟩⟩
  · rw [ofFiles_congr hnow, hopen]
  · have hcurrent : (s.after history).Current now := by
      have hpasts : ∀ past ∈ history, SameFiles files now past.1 :=
        fun past hpast file hfile => (hsame past hpast file hfile).trans (hnow file hfile).symm
      exact Current.after (hfresh ▸ s.current_fresh now) hfiles hpasts
    rw [ask_of_current hcurrent, after_fresh, hfresh]
  · have hquery : (Query.column position).columnOf? (s.after history).catalog = some position := rfl
    rw [ask_fst_of_columnOf? hquery, column_eq_valueAt hwhole, after_catalog, after_size]
    cases s.catalog.getVariable position with
    | error fault => rfl
    | ok v =>
      simp only [ok_bind]
      cases (List.range s.size).mapM ((s.after history).valueAt now position) <;> rfl
  · rintro before past query later position values rfl hquery hanswer now
    obtain ⟨⟨v, hv⟩, hkept⟩ := kept_of_history hquery hanswer later
    rw [← after_catalog s (before ++ (past, query) :: later)] at hv
    refine ⟨?_, ?_, fun index h => ?_⟩
    · have hcolumn : (s.after (before ++ (past, query) :: later)).column now position =
          .ok (_, values) := column_eq_ok.2 ⟨⟨v, hv⟩, .inl ⟨hkept, rfl⟩⟩
      exact congrArg Prod.fst ((ask_column_eq_ok rfl).2 hcolumn)
    · exact (hwhole position values hkept).trans (after_size s _)
    · simp only [ask, valueAt_of_kept hwhole ⟨v, hv⟩ hkept now h]
      rfl
  · exact fun now query fault => ask_of_error
  · obtain ⟨values, hvalues⟩ := Option.isSome_iff_exists.1 h
    obtain hstart | ⟨before, past, query, later, hhistory, hquery, hanswer⟩ :=
      column?_of_after hvalues
    · rw [column?, hcolumns] at hstart
      cases hstart
    · exact ⟨before, past, query, later, values, hhistory, hquery, hanswer⟩
  · rintro ⟨before, past, query, later, values, rfl, hquery, hanswer⟩
    exact Option.isSome_iff_exists.2 ⟨values, (kept_of_history hquery hanswer _).2⟩

/-- The second of two columns, asked for before the file is cut off and again after it; the first
one can no longer be read by then. -/
theorem ask_agrees_fresh_cut :
    let double (n : UInt64) : Double := ⟨n⟩
    let row (a b : Double) : Keyword :=
      ⟨⟨"PARAMS", by decide⟩, .double, 2, Element.encode a ++ Element.encode b, .inl rfl⟩
    let catalog : SummaryCatalog :=
      ⟨[⟨"TIME", none, 0, "DAYS", none, none⟩, ⟨"FPR", none, 0, "BARSA", none, none⟩], ⟨1, 1, 1⟩,
        none, none, .gregorian, .midnight ⟨2000, 1, 1⟩, ":"⟩
    let one := double 0x3ff0000000000000
    let two := double 0x4000000000000000
    let entries : List Entry :=
      [⟨"PARAMS", .double, 2, 0, 24, 0⟩, ⟨"PARAMS", .double, 2, 48, 72, 1⟩]
    let file : KeywordFile := ⟨"RUN.UNSMRY", .binary .big, 96, ⟨entries⟩⟩
    let disk : Disk := ⟨[("RUN.UNSMRY",
      Records.bytesOf .big (row one two) ++ Records.bytesOf .big (row two one))]⟩
    let cut : Disk := ⟨[("RUN.UNSMRY", [])]⟩
    let history : List (Disk × Query) := [(disk, .columnNamed "FPR"), (cut, .column 0)]
    ∃ s, ofFiles catalog [file] disk = .ok s ∧
      (∀ now, ((s.after history).ask now (.column 1)).1 = .ok (.column [two, one])) ∧
      ((s.after history).ask cut (.column 0)).2 = s.after history ∧
      (s.after history).isCached 1 ∧
      ((s.after [(disk, .column 1)]).ask disk (.value 1 0)).1 = (s.ask disk (.value 1 0)).1 := by
  intro double row catalog one two entries file disk cut history
  have hopen := @ofFiles_of_ministeps catalog [file] disk
    (entries.zipIdx.zipWith (fun (e, n) days => ⟨file, e, n, 0, days⟩) [one, two])
    (by decide +kernel)
  refine ⟨_, hopen, fun now => ?_, ?_, ?_, ?_⟩
  · refine ((ask_agrees_fresh hopen history).2.2.1 [] disk (.columnNamed "FPR") [(cut, .column 0)] 1
      [two, one] rfl ?_ ?_ now).1
    · decide +kernel
    · decide +kernel
  · refine (ask_agrees_fresh hopen history).2.2.2.1 cut (.column 0) (.truncated 8 0) ?_
    decide +kernel
  · refine ((ask_agrees_fresh hopen history).2.2.2.2 1).2
      ⟨[], disk, .columnNamed "FPR", [(cut, .column 0)], [two, one], rfl, ?_, ?_⟩
    · decide +kernel
    · decide +kernel
  · have hsame : SameFiles [file] disk disk := fun _ _ => rfl
    obtain ⟨opened, hopened, hanswer⟩ :=
      (ask_agrees_fresh hopen [(disk, .column 1)]).1 (by simpa using hsame) disk hsame (.value 1 0)
    rw [hopen] at hopened
    cases hopened
    exact hanswer

end Series

end Reservoir
