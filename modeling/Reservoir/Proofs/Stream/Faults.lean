import Reservoir.Proofs.Outcome
import Reservoir.Stream.Codec

/-!
How reading a stream can fail. A binary stream can be cut off, have markers that disagree or be
malformed; a stream of lines can be malformed, hold a wrong number of values or be no text. No
reader takes an end inside a keyword for the end of the stream.
-/

namespace Reservoir

open Outcome

def recordFaults : List FaultKind := [.truncated, .framing, .format]

namespace Record

theorem readMarker_failsIn (order : ByteOrder) (c : Cursor) :
    FailsIn recordFaults (readMarker order c) := by
  unfold readMarker
  dsimp only
  split
  · exact failsIn_ok _
  · split
    · exact failsIn_error (by simp [recordFaults, Fault.kind])
    · exact failsIn_ok _

theorem readLength_failsIn (order : ByteOrder) (c : Cursor) :
    FailsIn recordFaults (readLength order c) := by
  refine (readMarker_failsIn order c).bind_option (failsIn_ok _) fun found => ?_
  dsimp only
  split
  · exact failsIn_reject (by decide)
  · exact failsIn_ok _

theorem readTrailer_failsIn (order : ByteOrder) (length : Nat) (c : Cursor) :
    FailsIn recordFaults (readTrailer order length c) := by
  have htruncated : FaultKind.truncated ∈ recordFaults := by decide
  have hframing : FaultKind.framing ∈ recordFaults := by decide
  refine (readMarker_failsIn order c).bind_option (failsIn_error htruncated) fun found => ?_
  dsimp only
  split
  · exact failsIn_ok _
  · exact failsIn_error hframing

theorem read_failsIn (order : ByteOrder) (c : Cursor) : FailsIn recordFaults (read order c) := by
  have htruncated : FaultKind.truncated ∈ recordFaults := by decide
  refine (readLength_failsIn order c).bind_option (failsIn_ok _) fun found => ?_
  dsimp only
  split
  · exact failsIn_error htruncated
  · exact (readTrailer_failsIn order found.1 _).bind fun _ => failsIn_ok _

end Record

namespace Header

theorem typeOf_failsIn {kinds : List FaultKind} (h : .format ∈ kinds) (code : List Char) :
    FailsIn kinds (typeOf code) := by
  unfold typeOf
  split
  · exact failsIn_ok _
  · exact failsIn_reject h

end Header

theorem Name.check_failsIn {kinds : List FaultKind} (h : .format ∈ kinds) (s : String) :
    FailsIn kinds (check s) := by
  unfold check
  split
  · split
    · split
      · exact failsIn_ok _
      · exact failsIn_reject h
    · exact failsIn_reject h
  · exact failsIn_reject h

theorem Header.ofRecord_failsIn (order : ByteOrder) (bytes : Bytes) :
    FailsIn recordFaults (ofRecord order bytes) := by
  have hformat : FaultKind.format ∈ recordFaults := by decide
  unfold ofRecord
  split
  · exact failsIn_reject hformat
  · split
    · exact failsIn_reject hformat
    · refine (Name.check_failsIn hformat _).bind fun name => ?_
      dsimp only
      split
      · exact failsIn_reject hformat
      · exact (typeOf_failsIn hformat _).bind fun _ => failsIn_ok _

namespace Records

theorem checkLength_failsIn (h : Header) (found expected : Nat) :
    FailsIn recordFaults (checkLength h found expected) := by
  unfold checkLength
  split
  · exact failsIn_ok _
  · exact failsIn_reject (by decide)

theorem readHeader_failsIn (order : ByteOrder) (c : Cursor) :
    FailsIn recordFaults (readHeader order c) :=
  (Record.read_failsIn order c).bind_option (failsIn_ok _) fun found =>
    (Header.ofRecord_failsIn order found.1).bind fun _ => failsIn_ok _

theorem readBlocks_failsIn (order : ByteOrder) (h : Header) (left : Nat) (c : Cursor) :
    FailsIn recordFaults (readBlocks order h left c) := by
  induction left using Nat.strongRecOn generalizing c with
  | ind left ih =>
    rw [readBlocks]
    split
    · exact failsIn_ok _
    · next hleft =>
      have hpos := h.type.blockSize_pos
      have htruncated : FaultKind.truncated ∈ recordFaults := by decide
      refine (Record.read_failsIn order c).bind_option (failsIn_error htruncated) fun found => ?_
      refine (checkLength_failsIn h _ _).bind fun _ => ?_
      exact (ih _ (by omega) found.2).bind fun _ => failsIn_ok _

theorem readPayload_failsIn (order : ByteOrder) (h : Header) (c : Cursor) :
    FailsIn recordFaults (readPayload order h c) :=
  (readBlocks_failsIn order h _ c).bind fun _ => failsIn_ok _

end Records

def lineFaults : List FaultKind := [.input, .format, .sizeMismatch]

namespace Text

theorem tokensOf_failsIn (line rest : List Char) : FailsIn lineFaults (tokensOf line rest) := by
  fun_induction tokensOf line rest with
  | case1 => exact failsIn_ok _
  | case2 => exact failsIn_reject (by decide)
  | case3 rest c cs hrest hquote q after hafter ih => exact ih.bind fun _ => failsIn_ok _
  | case4 rest c cs hrest hquote ih => exact ih.bind fun _ => failsIn_ok _

theorem tokenize_failsIn (line : List Char) : FailsIn lineFaults (tokenize line) :=
  tokensOf_failsIn line _

theorem padAscii_failsIn (s : String) (width : Nat) : FailsIn lineFaults (padAscii s width) := by
  unfold padAscii
  split
  · exact failsIn_reject (by decide)
  · split
    · exact failsIn_reject (by decide)
    · exact failsIn_ok _

end Text

theorem Header.ofLine_failsIn (line : List Char) : FailsIn lineFaults (ofLine line) := by
  have hformat : FaultKind.format ∈ lineFaults := by decide
  refine (Text.tokenize_failsIn line).bind fun tokens => ?_
  split
  · refine (Name.check_failsIn hformat _).bind fun name => ?_
    split
    · exact failsIn_reject hformat
    · exact (typeOf_failsIn hformat _).bind fun _ => failsIn_ok _
  · exact failsIn_reject hformat

namespace Lines

theorem readLine_failsIn (c : Cursor) : FailsIn lineFaults (readLine c) := by
  unfold readLine
  split
  · exact failsIn_ok _
  · dsimp only
    split
    · exact failsIn_ok _
    · exact failsIn_error (by decide)

theorem readHeader_failsIn (c : Cursor) : FailsIn lineFaults (readHeader c) := by
  fun_induction readHeader c with
  | case1 c fault hl => exact failsIn_error (readLine_failsIn c fault hl)
  | case2 => exact failsIn_ok _
  | case3 c line c₁ hl hblank ih => exact ih
  | case4 c line c₁ hl hblank => exact (Header.ofLine_failsIn line).bind fun _ => failsIn_ok _

theorem takeLines_failsIn (name : String) (expected left : Nat) (c : Cursor) :
    FailsIn lineFaults (takeLines name expected left c) := by
  induction left generalizing c with
  | zero => exact failsIn_ok _
  | succ left ih =>
    exact (readLine_failsIn c).bind_option (failsIn_reject (by decide)) fun found =>
      (ih found.2).bind fun _ => failsIn_ok _

theorem tokenSlot_failsIn (h : Header) (token : Text.Token) :
    FailsIn lineFaults (tokenSlot h token) := by
  unfold tokenSlot
  cases token with
  | quoted text => exact failsIn_reject (by decide)
  | bare text =>
    dsimp only
    split
    · exact failsIn_ok _
    · exact failsIn_reject (by decide)

theorem readTokens_failsIn (h : Header) (found : Nat) (tokens : List Text.Token) :
    FailsIn lineFaults (readTokens h found tokens) := by
  induction tokens generalizing found with
  | nil => exact failsIn_ok _
  | cons token tokens ih =>
    have hrest := ih (found + 1)
    unfold readTokens
    dsimp only
    split
    · exact (tokenSlot_failsIn h token).bind fun _ => hrest.bind fun _ => failsIn_ok _
    · exact hrest.bind fun _ => failsIn_ok _

theorem readSlots_failsIn (h : Header) (line : List Char) (fuel found : Nat) (rest : List Char) :
    FailsIn lineFaults (readSlots h line fuel found rest) := by
  induction fuel generalizing found rest with
  | zero => exact failsIn_ok _
  | succ fuel ih =>
    unfold readSlots
    split
    · exact failsIn_ok _
    · split
      · exact failsIn_reject (by decide)
      · next text after _ =>
        have hrest := ih (found + 1) after
        dsimp only
        split
        · exact (Text.padAscii_failsIn _ _).bind fun _ => hrest.bind fun _ => failsIn_ok _
        · exact hrest.bind fun _ => failsIn_ok _

theorem readLines_failsIn {read : Nat → List Char → Outcome (Nat × Bytes)}
    (hread : ∀ found line, FailsIn lineFaults (read found line)) (found : Nat)
    (lines : List (List Char)) : FailsIn lineFaults (readLines read found lines) := by
  induction lines generalizing found with
  | nil => exact failsIn_ok _
  | cons line lines ih =>
    exact (hread found line).bind fun front => (ih front.1).bind fun _ => failsIn_ok _

theorem payload_failsIn (h : Header) (lines : List (List Char)) :
    FailsIn lineFaults (payload h lines) := by
  refine (readLines_failsIn (fun found line => ?_) 0 lines).bind fun total => ?_
  · split
    · exact readSlots_failsIn h line _ found _
    · exact (Text.tokenize_failsIn line).bind fun tokens => readTokens_failsIn h found tokens
  · dsimp only
    split
    · exact failsIn_ok _
    · exact failsIn_error (by simp [lineFaults, Fault.kind])

end Lines

namespace Encoding

def faults : Encoding → List FaultKind
  | .text => lineFaults
  | .binary _ => recordFaults

theorem endOfStream_notMem_faults (encoding : Encoding) :
    FaultKind.endOfStream ∉ encoding.faults := by
  cases encoding with
  | text => decide
  | binary order => simp [faults, recordFaults]

theorem readHeader_failsIn (encoding : Encoding) (c : Cursor) :
    FailsIn encoding.faults (encoding.readHeader c) := by
  cases encoding with
  | text => exact Lines.readHeader_failsIn c
  | binary order => exact Records.readHeader_failsIn order c

theorem readPayload_failsIn (encoding : Encoding) (h : Header) (c : Cursor) :
    FailsIn encoding.faults (encoding.readPayload h c) := by
  cases encoding with
  | text =>
    exact (Lines.takeLines_failsIn h.name _ _ c).bind fun taken =>
      (Lines.payload_failsIn h taken.1).bind fun _ => failsIn_ok _
  | binary order => exact Records.readPayload_failsIn order h c

end Encoding

end Reservoir
