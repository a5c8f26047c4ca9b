import Reservoir.Proofs.Stream.Canonical
import Reservoir.Proofs.Stream.Holding

/-!
Recognizing binary streams. The first record of a stream is the header of a keyword, and the
length that it declares is read back in the byte order of the writer and in no other one. A stream
with a keyword is opened in this order, and its catalog is that of the keywords written.
-/

namespace Reservoir

open Cursor Outcome

namespace Encoding

theorem startsWithRecord_framed {payload : Bytes} (h : payload.length = headerLength)
    (order found : ByteOrder) (rest : Bytes) :
    startsWithRecord found ((Record.framed order payload ++ rest).take leadLength) =
      decide (found = order) := by
  have hmarker : (order.encode 4 headerLength).length = 4 := ByteOrder.length_encode ..
  have hlead : (Record.framed order payload ++ rest).take leadLength =
      order.encode 4 headerLength ++ payload ++ order.encode 4 headerLength := by
    rw [Record.framed, Record.markerSize, h]
    refine List.take_left' ?_
    rw [List.length_append, List.length_append, hmarker, h]
    rfl
  have hfront : (order.encode 4 headerLength ++ payload ++ order.encode 4 headerLength).take 4 =
      order.encode 4 headerLength := by
    rw [List.append_assoc, List.take_left' hmarker]
  have hback : (order.encode 4 headerLength ++ payload ++ order.encode 4 headerLength).drop
      (leadLength - 4) = order.encode 4 headerLength := by
    refine List.drop_left' ?_
    rw [List.length_append, hmarker, h]
    rfl
  have hlength : (order.encode 4 headerLength ++ payload ++ order.encode 4 headerLength).length =
      leadLength := by
    rw [List.length_append, List.length_append, hmarker, h]
    rfl
  rw [hlead, startsWithRecord, hlength, hfront, hback]
  cases order <;> cases found <;> decide

/-- What a caller says does not speak against a binary stream of a byte order. -/
structure Hints.Admit (hints : Hints) (order : ByteOrder) : Prop where
  order_eq : ∀ given, hints.order = some given → given = order
  form_eq : ∀ given, hints.form = some given → given = .binary

theorem Hints.admit_none (order : ByteOrder) : Hints.none.Admit order where
  order_eq given h := by cases h
  form_eq given h := by cases h

theorem recognize_framed {payload : Bytes} (h : payload.length = headerLength) {hints : Hints}
    {order : ByteOrder} (hhints : hints.Admit order) (rest : Bytes) :
    recognize (Record.framed order payload ++ rest) hints = .ok (.binary order) := by
  have hfound : (candidates hints.order).find? (fun found =>
      startsWithRecord found ((Record.framed order payload ++ rest).take leadLength)) =
        some order := by
    simp only [startsWithRecord_framed h]
    cases hgiven : hints.order with
    | none => cases order <;> rfl
    | some given =>
      rw [hhints.order_eq given hgiven]
      cases order <;> rfl
  simp only [recognize, hfound]
  cases hgiven : hints.form with
  | none => rfl
  | some given =>
    rw [hhints.form_eq given hgiven]

end Encoding

/-- Keywords that are written to a binary stream, one of them at least, are found there when the
stream is opened and scanned. -/
theorem Writer.scan_streamOf {ks : List Keyword} (hks : ∀ k ∈ ks, k.count ≤ wordLimit)
    (hne : ks ≠ []) {order : ByteOrder} {hints : Encoding.Hints} (hhints : hints.Admit order)
    (path : String) :
    ∃ file, (KeywordFile.ofStream path (streamOf order ks) hints >>=
        (·.scan (streamOf order ks))) = .ok file ∧
      file.encoding = .binary order ∧ file.Holds (streamOf order ks) ks := by
  obtain ⟨stream, hwrite, hall⟩ := @writeAll_of_decodes (.binary order) ks
    (fun k hk => ⟨_, Records.send_eq (hks k hk) order, Records.decodes_bytesOf (hks k hk) order⟩)
    [] 0
  have hstream : streamOf order ks = stream := by rw [streamOf, start, hwrite, List.nil_append]
  obtain ⟨k, ks, rfl⟩ := List.exists_cons_of_ne_nil hne
  have hfirst : streamOf order (k :: ks) = Records.bytesOf order k ++
      (ks.map (Records.bytesOf order)).flatten := (writeAll_binary hks order).1
  obtain ⟨es, hscan, -⟩ :=
    Encoding.scanFrom_of_decodeAll (Ahead.refl (Cursor.start stream)) (hall 0) []
  have hopen : Encoding.recognize (streamOf order (k :: ks)) hints = .ok (.binary order) := by
    rw [hfirst, Records.bytesOf, List.append_assoc]
    exact Encoding.recognize_framed (Header.length_recordBytes order k) hhints _
  have hstart : KeywordFile.checkStart (.binary order) (streamOf order (k :: ks)) = .ok () := by
    obtain ⟨data, hheader, -⟩ := Encoding.decodeNext_eq_ok.1
      (Records.decodes_bytesOf (hks k List.mem_cons_self) order 0
        (ks.map (Records.bytesOf order)).flatten)
    rw [hfirst, KeywordFile.checkStart, Cursor.start, hheader]
  refine ⟨⟨path, .binary order, stream.length, ⟨es⟩⟩, ?_, rfl, ?_⟩
  · simp only [KeywordFile.ofStream, hopen, hstart, ok_bind, pure_eq, KeywordFile.scan]
    rw [hstream, Encoding.scan, hscan]
    rfl
  · rw [hstream]
    exact ⟨hall 0, hscan⟩

end Reservoir
