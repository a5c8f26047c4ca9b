import Reservoir.Proofs.Stream.Decoding
import Reservoir.Proofs.Stream.RecordRoundTrip
import Reservoir.Reader

/-!
Scanning a stream, decoding it and loading from it agree. What decodes to keywords up to its end
is catalogued with one entry for each of them, and every entry loads its keyword again, whatever
was read in between. Binary streams that do not decode to their end are not catalogued either.
-/

namespace Reservoir

open Cursor Outcome

namespace Encoding

theorem scanFrom_none {encoding : Encoding} {streamLength : Nat} {seen : List String} {c : Cursor}
    (h : encoding.readHeader c = .ok none) : encoding.scanFrom streamLength seen c = .ok [] := by
  rw [scanFrom]
  split
  · next hr => rw [h] at hr; cases hr
  · rfl
  · next hr => rw [h] at hr; cases hr

theorem scanFrom_some {encoding : Encoding} {streamLength : Nat} {seen : List String}
    {c data next : Cursor} {h : Header} (hh : encoding.readHeader c = .ok (some (h, data)))
    (hs : encoding.skipPayload streamLength h data = .ok next) :
    encoding.scanFrom streamLength seen c =
      (encoding.scanFrom streamLength (h.name :: seen) next).map
        (⟨h.name, h.type, h.count, c.position, data.position, seen.count h.name⟩ :: ·) := by
  rw [scanFrom]
  split
  · next hr => rw [hh] at hr; cases hr
  · next hr => rw [hh] at hr; cases hr
  · next hr =>
    rw [hh] at hr
    cases hr
    split
    · next hp => rw [hs] at hp; cases hp
    · next hp => rw [hs] at hp; cases hp; rfl

theorem scanFrom_header_error {encoding : Encoding} {streamLength : Nat} {seen : List String}
    {c : Cursor} {fault : Fault} (h : encoding.readHeader c = .error fault) :
    encoding.scanFrom streamLength seen c = .error fault := by
  rw [scanFrom]
  split
  · next hr => rw [h] at hr; cases hr; rfl
  · next hr => rw [h] at hr; cases hr
  · next hr => rw [h] at hr; cases hr

theorem scanFrom_skip_error {encoding : Encoding} {streamLength : Nat} {seen : List String}
    {c data : Cursor} {h : Header} {fault : Fault}
    (hh : encoding.readHeader c = .ok (some (h, data)))
    (hs : encoding.skipPayload streamLength h data = .error fault) :
    encoding.scanFrom streamLength seen c = .error fault := by
  rw [scanFrom]
  split
  · next hr => rw [hh] at hr; cases hr
  · next hr => rw [hh] at hr; cases hr
  · next hr =>
    rw [hh] at hr
    cases hr
    split
    · next hp => rw [hs] at hp; cases hp; rfl
    · next hp => rw [hs] at hp; cases hp

theorem scanFrom_eq_ok {encoding : Encoding} {streamLength : Nat} {seen : List String} {c : Cursor}
    {es : List Entry} (h : encoding.scanFrom streamLength seen c = .ok es) :
    (es = [] ∧ encoding.readHeader c = .ok none) ∨
      ∃ header data next back, encoding.readHeader c = .ok (some (header, data)) ∧
        encoding.skipPayload streamLength header data = .ok next ∧
        encoding.scanFrom streamLength (header.name :: seen) next = .ok back ∧
        es = ⟨header.name, header.type, header.count, c.position, data.position,
          seen.count header.name⟩ :: back := by
  cases hheader : encoding.readHeader c with
  | error fault =>
    rw [scanFrom_header_error hheader] at h
    cases h
  | ok found =>
    cases found with
    | none =>
      rw [scanFrom_none hheader] at h
      cases h
      exact .inl ⟨rfl, rfl⟩
    | some found =>
      obtain ⟨header, data⟩ := found
      cases hskip : encoding.skipPayload streamLength header data with
      | error fault =>
        rw [scanFrom_skip_error hheader hskip] at h
        cases h
      | ok next =>
        rw [scanFrom_some hheader hskip] at h
        cases hback : encoding.scanFrom streamLength (header.name :: seen) next with
        | error fault =>
          rw [hback] at h
          cases h
        | ok back =>
          rw [hback] at h
          cases h
          exact .inr ⟨header, data, next, back, rfl, hskip, hback, rfl⟩

/-- The entries of consecutive keywords of a stream, when `seen` are the names before them. -/
inductive Catalogues (encoding : Encoding) (stream : Bytes) :
    List String → List Keyword → List Entry → Prop where
  | nil {seen : List String} : Catalogues encoding stream seen [] []
  | cons {seen : List String} {k : Keyword} {e : Entry} {next : Cursor} {ks : List Keyword}
      {es : List Entry} (header : e.header = k.header)
      (occurrence : e.occurrence = seen.count k.name.val)
      (decodes : encoding.decodeNext (.seek stream e.offset) = .ok (k, next))
      (tail : Catalogues encoding stream (k.name.val :: seen) ks es) :
      Catalogues encoding stream seen (k :: ks) (e :: es)

namespace Catalogues

variable {encoding : Encoding} {stream : Bytes} {seen : List String} {ks : List Keyword}
  {es : List Entry}

theorem length_eq (h : Catalogues encoding stream seen ks es) : es.length = ks.length := by
  induction h with
  | nil => rfl
  | cons header occurrence decodes tail ih => rw [List.length_cons, List.length_cons, ih]

theorem map_header (h : Catalogues encoding stream seen ks es) :
    es.map Entry.header = ks.map Keyword.header := by
  induction h with
  | nil => rfl
  | cons header occurrence decodes tail ih => rw [List.map_cons, List.map_cons, header, ih]

theorem decodes_getElem (h : Catalogues encoding stream seen ks es) (i : Nat)
    (hk : i < ks.length) (he : i < es.length) :
    ∃ next, encoding.decodeNext (.seek stream es[i].offset) = .ok (ks[i], next) := by
  induction h generalizing i with
  | nil => exact absurd hk (Nat.not_lt_zero i)
  | @cons seen k e next ks es header occurrence decodes tail ih =>
    cases i with
    | zero => exact ⟨next, decodes⟩
    | succ i => exact ih i (Nat.lt_of_succ_lt_succ hk) (Nat.lt_of_succ_lt_succ he)

theorem occurrence_getElem (h : Catalogues encoding stream seen ks es) (i : Nat)
    (hk : i < ks.length) (he : i < es.length) :
    es[i].occurrence = seen.count ks[i].name.val +
      (ks.take i).countP fun k => k.name.val == ks[i].name.val := by
  induction h generalizing i with
  | nil => exact absurd hk (Nat.not_lt_zero i)
  | @cons seen k e next ks es header occurrence decodes tail ih =>
    cases i with
    | zero => exact occurrence
    | succ i =>
      have hback := ih i (Nat.lt_of_succ_lt_succ hk) (Nat.lt_of_succ_lt_succ he)
      simp only [List.getElem_cons_succ, List.take_succ_cons, List.countP_cons]
      rw [hback, List.count_cons]
      omega

end Catalogues

theorem scanFrom_of_decodeNext {encoding : Encoding} {stream : Bytes} {c next : Cursor}
    {k : Keyword} (hc : (start stream).Ahead c) (h : encoding.decodeNext c = .ok (k, next))
    (seen : List String) :
    (start stream).Ahead next ∧ ∃ entry : Entry, entry.header = k.header ∧
      entry.occurrence = seen.count k.name.val ∧ entry.offset = c.position ∧
      encoding.scanFrom stream.length seen c =
        (encoding.scanFrom stream.length (k.name.val :: seen) next).map (entry :: ·) := by
  obtain ⟨data, hheader, hpayload⟩ := decodeNext_eq_ok.1 h
  have hdata := hc.trans (readHeader_ahead hheader)
  have hskip := skipPayload_of_readPayload hdata.length_stream hpayload
  refine ⟨hdata.trans (readPayload_ahead hpayload), ?_⟩
  exact ⟨_, rfl, rfl, rfl, scanFrom_some hheader hskip⟩

/-- The run of the scanner follows the run of the decoder. -/
theorem scanFrom_of_decodeAll {encoding : Encoding} {stream : Bytes} {c : Cursor}
    {ks : List Keyword} (hc : (start stream).Ahead c)
    (h : encoding.decodeAll c = (ks, .endOfStream)) (seen : List String) :
    ∃ es, encoding.scanFrom stream.length seen c = .ok es ∧
      encoding.Catalogues stream seen ks es := by
  induction ks generalizing c seen with
  | nil =>
    have hend := readHeader_of_endOfStream (decodeNext_of_decodeAll_nil h)
    exact ⟨[], scanFrom_none hend, .nil⟩
  | cons k ks ih =>
    obtain ⟨next, hdecode, hks⟩ := decodeNext_of_decodeAll_cons h
    obtain ⟨hnext, entry, hheader, hoccurrence, hoffset, hscan⟩ :=
      scanFrom_of_decodeNext hc hdecode seen
    obtain ⟨es, hback, htail⟩ := ih hnext hks (k.name.val :: seen)
    have hplace : encoding.decodeNext (.seek stream entry.offset) = .ok (k, next) := by
      rw [hoffset, hc.eq_seek]
      exact hdecode
    refine ⟨entry :: es, ?_, .cons hheader hoccurrence hplace htail⟩
    rw [hscan, hback]
    rfl

theorem scanFrom_error_of_decodeAll {order : ByteOrder} {stream : Bytes} {c : Cursor}
    {ks : List Keyword} {fault : Fault} (hc : (start stream).Ahead c)
    (h : (binary order).decodeAll c = (ks, fault)) (hend : fault ≠ .endOfStream)
    (seen : List String) :
    fault.kind ∈ recordFaults ∧
      ∃ fault', (binary order).scanFrom stream.length seen c = .error fault' ∧
        fault'.kind = fault.kind := by
  induction ks generalizing c seen with
  | nil =>
    obtain ⟨hkind, hheader | ⟨header, data, fault', hheader, hskip, hsame⟩⟩ :=
      decodeNext_binary_error hc.length_stream (decodeNext_of_decodeAll_nil h) hend
    · exact ⟨hkind, fault, scanFrom_header_error hheader, rfl⟩
    · exact ⟨hkind, fault', scanFrom_skip_error hheader hskip, hsame⟩
  | cons k ks ih =>
    obtain ⟨next, hdecode, hks⟩ := decodeNext_of_decodeAll_cons h
    obtain ⟨hnext, entry, -, -, -, hscan⟩ := scanFrom_of_decodeNext hc hdecode seen
    obtain ⟨hkind, fault', hback, hsame⟩ := ih hnext hks (k.name.val :: seen)
    refine ⟨hkind, fault', ?_, hsame⟩
    rw [hscan, hback]
    rfl

end Encoding

namespace KeywordFile

variable {file : KeywordFile} {stream : Bytes} {entry : Entry} {k : Keyword} {next : Cursor}

theorem loadAt_of_decodeNext (hheader : entry.header = k.header)
    (h : file.encoding.decodeNext (.seek stream entry.offset) = .ok (k, next)) :
    file.loadAt entry (.seek stream entry.offset) = .ok (k, next) := by
  obtain ⟨data, hh, hp⟩ := Encoding.decodeNext_eq_ok.1 h
  have hk : Keyword.ofPayload k.header.name k.header.type k.header.count k.payload = .ok k :=
    k.ofPayload_payload
  simp only [loadAt, hh, hheader, ne_eq, not_true, if_false, hp, hk, ok_bind, pure_eq]

theorem load_of_decodeNext (hheader : entry.header = k.header)
    (h : file.encoding.decodeNext (.seek stream entry.offset) = .ok (k, next)) :
    file.load stream entry = .ok k := by
  simp only [load, loadAt_of_decodeNext hheader h, ok_bind, pure_eq]

/-- An entry loads what decodes at its place, and only a keyword that it tells of. -/
theorem load_eq_ok_iff : file.load stream entry = .ok k ↔ k.header = entry.header ∧
    ∃ next, file.encoding.decodeNext (.seek stream entry.offset) = .ok (k, next) := by
  refine ⟨fun h => ?_, fun ⟨hheader, next, h⟩ => load_of_decodeNext hheader.symm h⟩
  obtain ⟨⟨keyword, next⟩, hload, h⟩ := bind_eq_ok.1 h
  cases h
  unfold loadAt at hload
  split at hload
  · cases hload
  · cases hload
  · next header data hheader =>
    split at hload
    · cases hload
    · next hsame =>
      split at hload
      · cases hload
      · next payload place hpayload =>
        obtain ⟨_, hk, hload⟩ := bind_eq_ok.1 hload
        cases hload
        have hdecode :
            file.encoding.decodeNext (.seek stream entry.offset) = .ok (keyword, next) := by
          simp only [Encoding.decodeNext, hheader, hpayload, hk, ok_bind, pure_eq]
        obtain ⟨data', hheader', -⟩ := Encoding.decodeNext_eq_ok.1 hdecode
        rw [hheader] at hheader'
        cases hheader'
        exact ⟨not_not.1 hsame, next, hdecode⟩

end KeywordFile

namespace Reader

theorem load_same (r : Reader) (lost : Nat) (entry : Entry) :
    (r.load lost entry).2.file = r.file ∧ (r.load lost entry).2.stream = r.stream := by
  unfold load
  split
  · exact ⟨rfl, rfl⟩
  · exact ⟨rfl, rfl⟩

theorem elements_same (α : Type) [Element α] (r : Reader) (lost : Nat) (entry : Entry)
    (first last : Nat) :
    (r.elements α lost entry first last).2.file = r.file ∧
      (r.elements α lost entry first last).2.stream = r.stream := by
  unfold elements
  dsimp only
  split
  · exact ⟨rfl, rfl⟩
  · exact load_same r lost entry
  · split
    · exact ⟨rfl, rfl⟩
    · exact ⟨rfl, rfl⟩

theorem step_same (r : Reader) (lost : Nat) (access : Access) :
    (r.step lost access).file = r.file ∧ (r.step lost access).stream = r.stream := by
  cases access with
  | load entry => exact load_same r lost entry
  | @elements α _ entry first last => exact elements_same α r lost entry first last
  | next index =>
    unfold step
    dsimp only
    split
    · exact load_same r lost _
    · exact ⟨rfl, rfl⟩

theorem after_same (r : Reader) (history : List (Nat × Access)) :
    (r.after history).file = r.file ∧ (r.after history).stream = r.stream := by
  induction history generalizing r with
  | nil => exact ⟨rfl, rfl⟩
  | cons access history ih =>
    have hstep := r.step_same access.1 access.2
    have hback := ih (r.step access.1 access.2)
    rw [hstep.1, hstep.2] at hback
    exact hback

theorem load_of_decodes {r : Reader} {entry : Entry} {k : Keyword}
    (hheader : entry.header = k.header)
    (h : ∃ next, r.file.encoding.decodeNext (.seek r.stream entry.offset) = .ok (k, next))
    (lost : Nat) : (r.load lost entry).1 = .ok k := by
  obtain ⟨next, h⟩ := h
  simp only [load, cursor, seek, KeywordFile.loadAt_of_decodeNext hheader h]

end Reader

/-- A stream of any encoding that decodes to its end has one entry for each keyword, which loads
it after any history of accesses; a binary stream is scanned only if it decodes to its end, and
otherwise scanning fails for the same kind of reason. -/
theorem Encoding.scan_agrees_decodeAll (stream : Bytes) :
    (∀ (encoding : Encoding) (ks : List Keyword),
      encoding.decodeAll (.start stream) = (ks, .endOfStream) →
      ∃ es, encoding.scan stream stream.length = .ok es ∧ es.length = ks.length ∧
        ∀ (i : Nat) (hk : i < ks.length) (he : i < es.length),
          es[i].name = ks[i].name.val ∧ es[i].type = ks[i].type ∧ es[i].count = ks[i].count ∧
          es[i].occurrence = (ks.take i).countP (fun k => k.name.val == ks[i].name.val) ∧
          ∀ (r : Reader) (history : List (Nat × Access)) (lost : Nat),
            r.file.encoding = encoding → r.stream = stream →
            ((r.after history).load lost es[i]).1 = .ok ks[i]) ∧
    ∀ order : ByteOrder,
      (∀ es, (binary order).scan stream stream.length = .ok es →
        ∃ ks, (binary order).decodeAll (.start stream) = (ks, .endOfStream) ∧
          ks.map Keyword.header = es.map Entry.header) ∧
      ∀ ks fault, (binary order).decodeAll (.start stream) = (ks, fault) →
        fault ≠ .endOfStream →
        fault.kind ∈ recordFaults ∧
          ∃ fault', (binary order).scan stream stream.length = .error fault' ∧
            fault'.kind = fault.kind := by
  have hstart : (start stream).Ahead (start stream) := Ahead.refl _
  refine ⟨fun encoding ks h => ?_, fun order => ⟨fun es hscan => ?_, fun ks fault h hend => ?_⟩⟩
  · obtain ⟨es, hscan, hall⟩ := scanFrom_of_decodeAll hstart h []
    refine ⟨es, hscan, hall.length_eq, fun i hk he => ?_⟩
    have hheader : es[i].header = ks[i].header := by
      have hmap := hall.map_header
      have hi := congrArg (·[i]?) hmap
      simpa [he, hk] using hi
    have hoccurrence := hall.occurrence_getElem i hk he
    rw [List.count_nil, Nat.zero_add] at hoccurrence
    refine ⟨congrArg Header.name hheader, congrArg Header.type hheader,
      congrArg Header.count hheader, hoccurrence, fun r history lost hencoding hstream => ?_⟩
    obtain ⟨hfile, hsame⟩ := r.after_same history
    refine Reader.load_of_decodes hheader ?_ lost
    rw [hfile, hsame, hencoding, hstream]
    exact hall.decodes_getElem i hk he
  · rcases hd : (binary order).decodeAll (.start stream) with ⟨ks, fault⟩
    by_cases hend : fault = .endOfStream
    · subst hend
      obtain ⟨es₁, hscan₁, hall⟩ := scanFrom_of_decodeAll hstart hd []
      have hes : es₁ = es := Except.ok.inj (hscan₁.symm.trans hscan)
      subst hes
      exact ⟨ks, rfl, hall.map_header.symm⟩
    · obtain ⟨-, fault', herror, -⟩ := scanFrom_error_of_decodeAll hstart hd hend []
      rw [scan, herror] at hscan
      cases hscan
  · exact scanFrom_error_of_decodeAll hstart h hend []

/-- A stream with two keywords of one name, loaded in the reverse order, and one that is cut off
within its first marker. -/
theorem Encoding.scan_agrees_decodeAll_twice :
    let k : Keyword :=
      ⟨⟨"PORO", by decide⟩, .int, 2, [1, 0, 0, 0, 0xfe, 0xff, 0xff, 0xff], .inl rfl⟩
    let stream := Records.bytesOf .big k ++ (Records.bytesOf .big k ++ [])
    let r : Reader := ⟨⟨"RUN.INIT", .binary .big, stream.length, .empty⟩, stream, 7⟩
    (binary .big).decodeAll (.start stream) = ([k, k], .endOfStream) ∧
    (∃ first second, (binary .big).scan stream stream.length = .ok [first, second] ∧
      first.occurrence = 0 ∧ second.occurrence = 1 ∧
      ((r.after [(0, .load second)]).load 0 first).1 = .ok k) ∧
    (binary .big).decodeAll (.start [0, 0]) = ([], .truncated 4 2) ∧
    ∃ fault, (binary .big).scan [0, 0] 2 = .error fault ∧ fault.kind = .truncated := by
  intro k stream r
  have hdecodes : (binary .big).Decodes (Records.bytesOf .big k) k :=
    Records.decodes_bytesOf (by decide) .big
  have hall : (binary .big).decodeAll (.start stream) = ([k, k], .endOfStream) := by
    rw [start, decodeAll_cons (hdecodes 0 _), decodeAll_cons (hdecodes _ []), decodeAll_nil]
  have hcut : (binary .big).decodeAll (.start [0, 0]) = ([], .truncated 4 2) :=
    decodeAll_error rfl
  obtain ⟨es, hscan, hlength, hentries⟩ := (scan_agrees_decodeAll stream).1 _ _ hall
  obtain ⟨first, second, rfl⟩ := List.length_eq_two.1 hlength
  obtain ⟨-, -, -, hzero, hload⟩ := hentries 0 (by decide) (Nat.succ_pos 1)
  obtain ⟨-, -, -, hone, -⟩ := hentries 1 (by decide) (Nat.lt_succ_self 1)
  have herror := ((scan_agrees_decodeAll [0, 0]).2 .big).2 [] _ hcut (by decide)
  exact ⟨hall, ⟨first, second, hscan, hzero, hone, hload r _ 0 rfl rfl⟩, hcut, herror.2⟩

end Reservoir
