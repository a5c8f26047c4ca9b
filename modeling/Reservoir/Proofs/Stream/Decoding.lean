import Reservoir.Proofs.Stream.Faults
import Reservoir.Proofs.Stream.LineSlots
import Reservoir.Proofs.Stream.Skipping
import Reservoir.Proofs.Stream.Reorder
import Reservoir.Proofs.Stream.Writing

/-!
One step of decoding. The next keyword is its header and its payload; passing the payload ends at
the same place, and a fault in a binary step has a fault of the same kind when it is passed.
-/

namespace Reservoir

open Cursor Outcome

/-- A header that is read has a name that passes, and a count that a word holds. -/
structure Header.Sound (h : Header) : Prop where
  name : ∃ name : Name, name.val = h.name
  count : h.count < 2 ^ 64

theorem Text.readCount?_lt {cs : List Char} {n : Nat} (h : readCount? cs = some n) : n < 2 ^ 64 :=
  of_decide_eq_true (Option.filter_eq_some_iff.1 h).2

theorem Header.ofLine_sound {line : List Char} {h : Header} (hr : ofLine line = .ok h) :
    h.Sound := by
  obtain ⟨tokens, -, hr⟩ := bind_eq_ok.1 hr
  split at hr
  · obtain ⟨name, -, hr⟩ := bind_eq_ok.1 hr
    split at hr
    · cases hr
    · next count hcount =>
      obtain ⟨type, -, hr⟩ := bind_eq_ok.1 hr
      cases hr
      exact ⟨⟨name, rfl⟩, Text.readCount?_lt hcount⟩
  · cases hr

theorem Header.ofRecord_sound {order : ByteOrder} {bytes : Bytes} {h : Header}
    (hr : ofRecord order bytes = .ok h) : h.Sound := by
  unfold ofRecord at hr
  split at hr
  · cases hr
  · split at hr
    · cases hr
    · obtain ⟨name, -, hr⟩ := bind_eq_ok.1 hr
      dsimp only at hr
      split at hr
      · cases hr
      · obtain ⟨type, -, hr⟩ := bind_eq_ok.1 hr
        cases hr
        have hword := (order.decodeInt32 ((bytes.drop 8).take 4)).toInt_lt
        exact ⟨⟨name, rfl⟩, by dsimp only; omega⟩

theorem Lines.readHeader_sound {c c' : Cursor} {h : Header}
    (hr : readHeader c = .ok (some (h, c'))) : h.Sound := by
  fun_induction readHeader c with
  | case1 => cases hr
  | case2 => cases hr
  | case3 c line c₁ hl hblank ih => exact ih hr
  | case4 c line c₁ hl hblank =>
    obtain ⟨header, hh, hr⟩ := bind_eq_ok.1 hr
    cases hr
    exact Header.ofLine_sound hh

theorem Records.length_of_readBlocks {order : ByteOrder} {h : Header} {left : Nat} {c c' : Cursor}
    {bytes : Bytes} (hr : readBlocks order h left c = .ok (bytes, c')) :
    bytes.length = left * h.type.size := by
  induction left using Nat.strongRecOn generalizing c bytes with
  | ind left ih =>
    by_cases hleft : left = 0
    · rw [hleft, readBlocks_zero] at hr
      cases hr
      rw [hleft, Nat.zero_mul]
      rfl
    · have hpos := h.type.blockSize_pos
      obtain ⟨front, c₁, back, -, hfront, hback, rfl⟩ := readBlocks_eq_ok hleft hr
      have hsum : min h.type.blockSize left + (left - h.type.blockSize) = left := by omega
      rw [List.length_append, hfront, ih _ (by omega) hback, ← Nat.add_mul, hsum]

theorem Keyword.ofPayload_eq_ok {name : String} {type : ElementType} {count : Nat}
    {payload : Bytes} {k : Keyword} (h : ofPayload name type count payload = .ok k) :
    Name.check name = .ok k.name ∧ k.type = type ∧ k.count = count ∧ k.payload = payload := by
  obtain ⟨checked, hcheck, h⟩ := bind_eq_ok.1 h
  split at h
  · cases h
    exact ⟨hcheck, rfl, rfl, rfl⟩
  · cases h

theorem Keyword.ofPayload_failsIn (name : String) (type : ElementType) (count : Nat)
    (payload : Bytes) : FailsIn [.format, .sizeMismatch] (ofPayload name type count payload) := by
  refine (Name.check_failsIn (by decide) name).bind fun checked => ?_
  split
  · exact failsIn_ok _
  · exact failsIn_error (by simp [Fault.kind])

namespace Encoding

theorem readHeader_sound {encoding : Encoding} {c c' : Cursor} {h : Header}
    (hr : encoding.readHeader c = .ok (some (h, c'))) : h.Sound := by
  cases encoding with
  | text => exact Lines.readHeader_sound hr
  | binary order =>
    obtain ⟨bytes, -, hheader⟩ := Records.readHeader_eq_some hr
    exact Header.ofRecord_sound hheader

theorem decodeNext_eq_ok {encoding : Encoding} {c next : Cursor} {k : Keyword} :
    encoding.decodeNext c = .ok (k, next) ↔
      ∃ data, encoding.readHeader c = .ok (some (k.header, data)) ∧
        encoding.readPayload k.header data = .ok (k.payload, next) := by
  constructor
  · intro h
    obtain ⟨header, data, payload, hheader, hpayload, hk⟩ := of_decodeNext_eq_ok h
    obtain ⟨hcheck, htype, hcount, hbytes⟩ := Keyword.ofPayload_eq_ok hk
    obtain ⟨name, hname⟩ := (readHeader_sound hheader).name
    rw [← hname, Name.check_val] at hcheck
    cases hcheck
    have hsame : k.header = header := by
      simp only [Keyword.header, htype, hcount, hname]
    rw [hsame, hbytes]
    exact ⟨data, hheader, hpayload⟩
  · rintro ⟨data, hheader, hpayload⟩
    have hk : Keyword.ofPayload k.header.name k.header.type k.header.count k.payload = .ok k :=
      k.ofPayload_payload
    simp only [decodeNext, hheader, hpayload, hk, ok_bind, pure_eq]

theorem readPayload_agree_skipPayload (order : ByteOrder) {streamLength : Nat} (h : Header)
    {c : Cursor} (hc : c.position + c.rest.length = streamLength) :
    Agree (fun read passed => read.2 = passed) ((binary order).readPayload h c)
      ((binary order).skipPayload streamLength h c) := by
  have hblocks := Records.readBlocks_agree_skipBlocks order h (Records.stored h) hc
  exact hblocks.bind_left fun _ _ hsame => hsame

theorem skipPayload_of_readPayload {encoding : Encoding} {h : Header} {streamLength : Nat}
    {c next : Cursor} {payload : Bytes} (hc : c.position + c.rest.length = streamLength)
    (hr : encoding.readPayload h c = .ok (payload, next)) :
    encoding.skipPayload streamLength h c = .ok next := by
  cases encoding with
  | text =>
    obtain ⟨lines, hlines, -⟩ := readPayload_text_eq_ok hr
    simp only [skipPayload, hlines, ok_bind, pure_eq]
  | binary order =>
    obtain ⟨passed, hskip, hsame⟩ := (readPayload_agree_skipPayload order h hc).of_ok hr
    cases hsame
    exact hskip

theorem readHeader_of_endOfStream {encoding : Encoding} {c : Cursor}
    (h : encoding.decodeNext c = .error .endOfStream) : encoding.readHeader c = .ok none := by
  have hend := encoding.endOfStream_notMem_faults
  unfold decodeNext at h
  cases hheader : encoding.readHeader c with
  | error fault =>
    rw [hheader] at h
    cases h
    exact (hend (encoding.readHeader_failsIn c _ hheader)).elim
  | ok found =>
    cases found with
    | none => rfl
    | some found =>
      obtain ⟨header, data⟩ := found
      rw [hheader, ok_bind] at h
      dsimp only at h
      cases hpayload : encoding.readPayload header data with
      | error fault =>
        rw [hpayload] at h
        cases h
        exact (hend (encoding.readPayload_failsIn header data _ hpayload)).elim
      | ok taken =>
        rw [hpayload, ok_bind] at h
        have hk := (Keyword.ofPayload_failsIn header.name header.type header.count taken.1).bind
          (fun k => failsIn_ok (k, taken.2)) _ h
        exact absurd hk (by decide)

theorem length_of_readPayload {encoding : Encoding} {h : Header} {c next : Cursor} {payload : Bytes}
    (hp : encoding.readPayload h c = .ok (payload, next)) :
    payload.length = h.count * h.type.size := by
  cases encoding with
  | text =>
    obtain ⟨lines, -, hlines⟩ := readPayload_text_eq_ok hp
    exact Lines.length_of_payload hlines
  | binary order =>
    obtain ⟨bytes, hblocks, rfl⟩ := readPayload_binary_eq_ok hp
    rw [Records.length_reorder, Records.length_of_readBlocks hblocks, Records.stored]
    split
    · next hzero => rw [hzero, Nat.mul_zero, Nat.mul_zero]
    · rfl

theorem whole_of_decodeNext {encoding : Encoding} {c next : Cursor} {k : Keyword}
    (h : encoding.decodeNext c = .ok (k, next)) : k.Whole := by
  obtain ⟨data, -, hpayload⟩ := decodeNext_eq_ok.1 h
  exact length_of_readPayload hpayload

theorem ofPayload_of_readPayload {encoding : Encoding} {h : Header} {c c' data next : Cursor}
    {payload : Bytes} (hr : encoding.readHeader c = .ok (some (h, c')))
    (hp : encoding.readPayload h data = .ok (payload, next)) :
    ∃ k, Keyword.ofPayload h.name h.type h.count payload = .ok k := by
  obtain ⟨name, hname⟩ := (readHeader_sound hr).name
  rw [← hname]
  simp only [Keyword.ofPayload, Name.check_val, ok_bind,
    dif_pos (show Fills _ _ _ from .inl (length_of_readPayload hp))]
  exact ⟨_, rfl⟩

/-- A binary step that fails elsewhere than at the end of the stream fails for the same kind of
reason when the payload is passed. -/
theorem decodeNext_binary_error {order : ByteOrder} {streamLength : Nat} {c : Cursor}
    {fault : Fault} (hc : c.position + c.rest.length = streamLength)
    (h : (binary order).decodeNext c = .error fault) (hend : fault ≠ .endOfStream) :
    fault.kind ∈ recordFaults ∧
      ((binary order).readHeader c = .error fault ∨
        ∃ header data fault', (binary order).readHeader c = .ok (some (header, data)) ∧
          (binary order).skipPayload streamLength header data = .error fault' ∧
          fault'.kind = fault.kind) := by
  unfold decodeNext at h
  cases hheader : (binary order).readHeader c with
  | error fault₁ =>
    rw [hheader] at h
    cases h
    exact ⟨(binary order).readHeader_failsIn c _ hheader, .inl rfl⟩
  | ok found =>
    cases found with
    | none =>
      rw [hheader] at h
      cases h
      exact absurd rfl hend
    | some found =>
      obtain ⟨header, data⟩ := found
      rw [hheader, ok_bind] at h
      dsimp only at h
      have hdata : data.position + data.rest.length = streamLength := by
        rw [(readHeader_ahead hheader).position_add_length, hc]
      cases hpayload : (binary order).readPayload header data with
      | error fault₁ =>
        rw [hpayload] at h
        cases h
        have hkind := (binary order).readPayload_failsIn header data _ hpayload
        obtain ⟨fault', hskip, hsame⟩ :=
          (readPayload_agree_skipPayload order header hdata).of_error hpayload
        exact ⟨hkind, .inr ⟨header, data, fault', rfl, hskip, hsame.symm⟩⟩
      | ok taken =>
        obtain ⟨k, hk⟩ := ofPayload_of_readPayload hheader hpayload
        rw [hpayload, ok_bind, hk] at h
        cases h

end Encoding

end Reservoir
