import Reservoir.Proofs.Outcome
import Reservoir.Proofs.Text.Ascii
import Reservoir.Stream.Scan
import Reservoir.Stream.Writer

/-!
Streams made by a writer. If the bytes of every keyword decode to it wherever they stand, the
stream of several keywords decodes to all of them and ends there.
-/

namespace Reservoir

theorem Keyword.ofPayload_payload (k : Keyword) :
    ofPayload k.name.val k.type k.count k.payload = .ok k := by
  simp [ofPayload, Name.check_val, k.fills]

namespace Encoding

/-- Whatever follows them, the next keyword at these bytes is `k`, and it takes all of them. -/
def Decodes (encoding : Encoding) (bytes : Bytes) (k : Keyword) : Prop :=
  ∀ place rest, encoding.decodeNext ⟨place, bytes ++ rest⟩ =
    .ok (k, ⟨place + bytes.length, rest⟩)

theorem readHeader_nil (encoding : Encoding) (place : Nat) :
    encoding.readHeader ⟨place, []⟩ = .ok none := by
  cases encoding with
  | text => simp [readHeader, Lines.readHeader, Lines.readLine]
  | binary order =>
    simp [readHeader, Records.readHeader, Record.read, Record.readLength, Record.readMarker,
      Cursor.front]

theorem decodeNext_nil (encoding : Encoding) (place : Nat) :
    encoding.decodeNext ⟨place, []⟩ = .error .endOfStream := by
  simp [decodeNext, readHeader_nil]

theorem decodeAll_cons {encoding : Encoding} {c c' : Cursor} {k : Keyword}
    (h : encoding.decodeNext c = .ok (k, c')) :
    encoding.decodeAll c = (k :: (encoding.decodeAll c').1, (encoding.decodeAll c').2) := by
  rw [decodeAll]
  split
  · next fault hd => rw [h] at hd; cases hd
  · next k₁ c₁ hd => rw [h] at hd; cases hd; rfl

theorem decodeAll_error {encoding : Encoding} {c : Cursor} {fault : Fault}
    (h : encoding.decodeNext c = .error fault) : encoding.decodeAll c = ([], fault) := by
  rw [decodeAll]
  split
  · next fault₁ hd => rw [h] at hd; cases hd; rfl
  · next k₁ c₁ hd => rw [h] at hd; cases hd

theorem decodeNext_of_decodeAll_nil {encoding : Encoding} {c : Cursor} {fault : Fault}
    (h : encoding.decodeAll c = ([], fault)) : encoding.decodeNext c = .error fault := by
  cases hd : encoding.decodeNext c with
  | error fault₁ =>
    rw [decodeAll_error hd] at h
    cases h
    rfl
  | ok decoded =>
    rw [decodeAll_cons hd] at h
    cases h

theorem decodeNext_of_decodeAll_cons {encoding : Encoding} {c : Cursor} {k : Keyword}
    {ks : List Keyword} {fault : Fault} (h : encoding.decodeAll c = (k :: ks, fault)) :
    ∃ next, encoding.decodeNext c = .ok (k, next) ∧ encoding.decodeAll next = (ks, fault) := by
  cases hd : encoding.decodeNext c with
  | error fault₁ =>
    rw [decodeAll_error hd] at h
    cases h
  | ok decoded =>
    obtain ⟨k₁, next⟩ := decoded
    rw [decodeAll_cons hd] at h
    cases h
    exact ⟨next, rfl, rfl⟩

theorem decodeAll_nil (encoding : Encoding) (place : Nat) :
    encoding.decodeAll ⟨place, []⟩ = ([], .endOfStream) :=
  decodeAll_error (decodeNext_nil encoding place)

end Encoding

namespace Writer

theorem write_of_send {w : Writer} {k : Keyword} {bytes : Bytes}
    (h : w.encoding.send k = ⟨bytes, none⟩) :
    w.write k = (⟨w.encoding, w.bytes ++ bytes, w.written + 1⟩, none) := by
  simp [write, h]

theorem write_of_fault {w : Writer} {k : Keyword} {fault : Fault}
    (h : w.encoding.send k = ⟨[], some fault⟩) : w.write k = (w, some fault) := by
  simp [write, h]

/-- The run of a writer and the run of the decoder on what it wrote. -/
theorem writeAll_of_decodes {encoding : Encoding} {ks : List Keyword}
    (h : ∀ k ∈ ks, ∃ bytes, encoding.send k = ⟨bytes, none⟩ ∧ encoding.Decodes bytes k)
    (front : Bytes) (written : Nat) :
    ∃ bytes, writeAll ⟨encoding, front, written⟩ ks =
        (⟨encoding, front ++ bytes, written + ks.length⟩, none) ∧
      ∀ place, encoding.decodeAll ⟨place, bytes⟩ = (ks, .endOfStream) := by
  induction ks generalizing front written with
  | nil => exact ⟨[], by simp [writeAll], encoding.decodeAll_nil⟩
  | cons k ks ih =>
    simp only [List.mem_cons, forall_eq_or_imp] at h
    obtain ⟨⟨bytes, hsend, hdecodes⟩, htail⟩ := h
    obtain ⟨back, hwrite, hall⟩ := ih htail (front ++ bytes) (written + 1)
    refine ⟨bytes ++ back, ?_, fun place => ?_⟩
    · have hstep : write ⟨encoding, front, written⟩ k =
          (⟨encoding, front ++ bytes, written + 1⟩, none) := write_of_send hsend
      simp only [writeAll, hstep, hwrite, List.append_assoc, List.length_cons, Nat.add_assoc,
        Nat.add_comm 1]
    · rw [Encoding.decodeAll_cons (hdecodes place back), hall]

end Writer

end Reservoir
