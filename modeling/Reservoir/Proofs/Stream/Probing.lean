import Reservoir.Proofs.Stream.Lookup

/-!
Streams that are probed. A header record and a line of text start differently, so the first bytes
of a stream that a writer made tell its encoding, unless the caller speaks against it. Probing
leaves the stream at its start, and from there the keywords written are found again.
-/

namespace Reservoir

open Cursor Outcome

theorem Lines.encode_eq_cons (k : Keyword) : ∃ back, encode k = 0x20 :: 0x27 :: back :=
  ⟨_, rfl⟩

namespace Encoding

theorem probe_run (hints : Hints) (t : Tape) :
    (probe hints).run t = (recognize t.stream hints, ⟨t.stream, 0⟩) := by
  have hlead : recognize (t.stream.take leadLength) hints = recognize t.stream hints := by
    simp only [recognize, List.take_take, Nat.min_self]
  exact congrArg (·, (⟨t.stream, 0⟩ : Tape)) hlead

/-- A line of text is no framed header record, in either order of bytes. -/
theorem startsWithRecord_text (order : ByteOrder) (back : Bytes) :
    startsWithRecord order ((0x20 :: 0x27 :: back).take leadLength) = false := by
  rw [Bool.eq_false_iff]
  intro hrecord
  simp only [startsWithRecord, Bool.and_eq_true, beq_iff_eq] at hrecord
  obtain ⟨⟨hlength, hmarker⟩, -⟩ := hrecord
  have hfour : (((0x20 :: 0x27 :: back).take leadLength).take 4).length = 4 := by
    rw [List.length_take, hlength]
    rfl
  have hbytes := (ByteOrder.encode_of_decodeInt32 hfour hmarker).1
  cases order with
  | big => exact absurd (List.cons.inj hbytes).1 (by decide)
  | little => exact absurd (List.cons.inj hbytes).1 (by decide)

/-- What a caller says does not speak against an encoding. Text has no order of bytes. -/
def Hints.Suit (hints : Hints) : Encoding → Prop
  | text => ∀ given, hints.form = some given → given = .text
  | binary order => hints.Admit order

theorem Hints.suit_none (encoding : Encoding) : Hints.none.Suit encoding := by
  cases encoding with
  | text => exact fun given h => by cases h
  | binary order => exact Hints.admit_none order

theorem recognize_text {hints : Hints} (hhints : hints.Suit text) (back : Bytes) :
    recognize (0x20 :: 0x27 :: back) hints = .ok text := by
  have hfound : (candidates hints.order).find? (fun order =>
      startsWithRecord order ((0x20 :: 0x27 :: back).take leadLength)) = none := by
    simp only [startsWithRecord_text, List.find?_eq_none, Bool.false_eq_true, not_false_eq_true,
      implies_true]
  simp only [recognize, hfound]
  cases hgiven : hints.form with
  | none => rfl
  | some given =>
    rw [hhints given hgiven]

/-- A keyword that an encoding can hold. Text holds all; a header record counts up to a limit. -/
def Takes : Encoding → Keyword → Prop
  | text, _ => True
  | binary _, k => k.count ≤ wordLimit

theorem recognize_writeAll {encoding : Encoding} {ks : List Keyword}
    (hks : ∀ k ∈ ks, encoding.Takes k) (hne : ks ≠ []) :
    ∃ stream, (Writer.start encoding).writeAll ks = (⟨encoding, stream, ks.length⟩, none) ∧
      ∀ hints : Hints, hints.Suit encoding → recognize stream hints = .ok encoding := by
  obtain ⟨k, ks, rfl⟩ := List.exists_cons_of_ne_nil hne
  cases encoding with
  | text =>
    have hsend : ∀ j ∈ k :: ks, text.send j = ⟨Lines.encode j, none⟩ := fun _ _ => rfl
    have hwrite := Writer.writeAll_of_send hsend [] 0
    rw [List.nil_append, Nat.zero_add] at hwrite
    obtain ⟨back, hfirst⟩ := Lines.encode_eq_cons k
    refine ⟨_, hwrite, fun hints hhints => ?_⟩
    rw [List.map_cons, List.flatten_cons, hfirst]
    exact recognize_text hhints _
  | binary order =>
    obtain ⟨hstream, hwrite⟩ := Writer.writeAll_binary hks order
    refine ⟨_, hwrite, fun hints hhints => ?_⟩
    rw [hstream, List.map_cons, List.flatten_cons, Records.bytesOf, List.append_assoc]
    exact recognize_framed (Header.length_recordBytes order k) hhints _

end Encoding

namespace IndexedFile

theorem loadAll_walk {f : IndexedFile} {stream : Bytes} {ks : List Keyword}
    (h : f.file.Holds stream ks) :
    f.entries.map Entry.header = ks.map Keyword.header ∧
      f.walk.loadAll Walk.next stream = ks.map .ok := by
  have hlists : List.Forall₂ (f.file.Loads stream) f.entries ks := h.lists
  have hloads : f.walk.loadAll Walk.next stream = f.file.loadAll stream f.entries := by
    rw [Walk.next_takes.loadAll_eq f.walk.length_ahead_le, walk_ahead]
    rfl
  rw [hloads, KeywordFile.loadAll]
  constructor
  · exact List.forall₂_eq_eq_eq ▸ List.rel_map (fun e k hload => hload.1) hlists
  · exact List.forall₂_eq_eq_eq ▸ List.rel_map (fun e k hload => hload.2) hlists

theorem exists_scan_streamOf {ks : List Keyword} (hks : ∀ k ∈ ks, k.count ≤ wordLimit)
    (hne : ks ≠ []) {order : ByteOrder} {hints : Encoding.Hints} (hhints : hints.Admit order)
    (path : String) :
    ∃ opened scanned, ofStream path (Writer.streamOf order ks) hints = .ok opened ∧
      opened.scan (Writer.streamOf order ks) = (.ok (), scanned) ∧
      scanned.entries.map Entry.header = ks.map Keyword.header ∧
      scanned.walk.loadAll Walk.next (Writer.streamOf order ks) = ks.map .ok := by
  obtain ⟨file, hfile, -, hholds⟩ := Writer.scan_streamOf hks hne hhints path
  obtain ⟨opened, hopen, hscan⟩ := bind_eq_ok.1 hfile
  refine ⟨⟨opened, .empty⟩, ⟨file, .ofEntries file.catalog.entries⟩, ?_, ?_, loadAll_walk hholds⟩
  · rw [ofStream, hopen, ok_bind, pure_eq]
  · rw [scan, hscan]

end IndexedFile

/-- Probing a stream that a writer made of keywords finds the encoding that they were written in,
whatever the caller says that does not speak against it, and rewinds the stream. A binary stream
is then opened and scanned, and the keywords written are found in it one after another. -/
theorem Encoding.probe_writeAll {encoding : Encoding} {ks : List Keyword}
    (hks : ∀ k ∈ ks, encoding.Takes k) (hne : ks ≠ []) :
    ∃ stream, (Writer.start encoding).writeAll ks = (⟨encoding, stream, ks.length⟩, none) ∧
      ∀ hints : Hints, hints.Suit encoding →
        (∀ place, (probe hints).run ⟨stream, place⟩ = (.ok encoding, ⟨stream, 0⟩)) ∧
        ∀ order, encoding = .binary order → ∀ path, ∃ opened scanned,
          IndexedFile.ofStream path stream hints = .ok opened ∧
          opened.scan stream = (.ok (), scanned) ∧
          scanned.entries.map Entry.header = ks.map Keyword.header ∧
          scanned.walk.loadAll Walk.next stream = ks.map .ok := by
  obtain ⟨stream, hwrite, hrecognize⟩ := recognize_writeAll hks hne
  refine ⟨stream, hwrite, fun hints hhints => ⟨fun place => ?_, ?_⟩⟩
  · rw [probe_run, hrecognize hints hhints]
  · rintro order rfl path
    have hstream : Writer.streamOf order ks = stream := by rw [Writer.streamOf, hwrite]
    rw [← hstream]
    exact IndexedFile.exists_scan_streamOf hks hne hhints path

/-- A message and two numbers, as text with an order of bytes given that does not matter, and as a
little-ended stream with nothing given. -/
theorem Encoding.probe_writeAll_message :
    let message : Keyword := ⟨⟨"ENDSOL", by decide⟩, .message, 3, [], .inl rfl⟩
    let numbers : Keyword :=
      ⟨⟨"PORO", by decide⟩, .int, 2, [1, 0, 0, 0, 0xfe, 0xff, 0xff, 0xff], .inl rfl⟩
    let ks := [message, numbers]
    (∃ stream, (Writer.start text).writeAll ks = (⟨text, stream, 2⟩, none) ∧
      (probe ⟨some .little, none⟩).run ⟨stream, 5⟩ = (.ok text, ⟨stream, 0⟩)) ∧
    ∃ stream opened scanned,
      (Writer.start (binary .little)).writeAll ks = (⟨binary .little, stream, 2⟩, none) ∧
      (probe .none).run ⟨stream, 5⟩ = (.ok (binary .little), ⟨stream, 0⟩) ∧
      IndexedFile.ofStream "RUN.INIT" stream .none = .ok opened ∧
      opened.scan stream = (.ok (), scanned) ∧
      scanned.walk.loadAll Walk.next stream = [.ok message, .ok numbers] := by
  intro message numbers ks
  have hcounts : ∀ k ∈ ks, (binary .little).Takes k := by
    intro k hk
    simp only [ks, List.mem_cons, List.not_mem_nil, or_false] at hk
    rcases hk with rfl | rfl
    · exact (by decide : 3 ≤ wordLimit)
    · exact (by decide : 2 ≤ wordLimit)
  obtain ⟨lines, hlines, htext⟩ := @probe_writeAll text ks (fun _ _ => trivial) (by simp [ks])
  obtain ⟨stream, hwrite, hbinary⟩ := probe_writeAll hcounts (by simp [ks])
  obtain ⟨hprobe, hfile⟩ := hbinary .none (Hints.suit_none _)
  obtain ⟨opened, scanned, hopen, hscan, -, hwalk⟩ := hfile .little rfl "RUN.INIT"
  exact ⟨⟨lines, hlines, (htext ⟨some .little, none⟩ fun given h => by cases h).1 5⟩,
    stream, opened, scanned, hwrite, hprobe 5, hopen, hscan, hwalk⟩

end Reservoir
