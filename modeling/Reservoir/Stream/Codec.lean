import Reservoir.Stream.Encoding
import Reservoir.Stream.Records

/-!
Streams of keywords in either encoding: reading the next keyword, and passing its data without
taking it.
-/

namespace Reservoir

open Cursor Outcome

namespace Lines

def isLineFeed (b : UInt8) : Bool := b == 0xa

def frontLine (bs : Bytes) : Bytes :=
  bs.takeWhile (!isLineFeed ·) ++ (bs.dropWhile (!isLineFeed ·)).take 1

theorem length_frontLine_le (bs : Bytes) : (frontLine bs).length ≤ bs.length := by
  have h := congrArg List.length (List.takeWhile_append_dropWhile (p := (!isLineFeed ·)) (l := bs))
  simp only [frontLine, List.length_append, List.length_take] at *
  omega

theorem length_frontLine_pos {bs : Bytes} (h : bs ≠ []) : 0 < (frontLine bs).length := by
  cases bs with
  | nil => exact absurd rfl h
  | cons b bs => by_cases hb : isLineFeed b <;> simp [frontLine, hb]

def readLine (c : Cursor) : Outcome (Option (List Char × Cursor)) :=
  if c.rest = [] then .ok none
  else
    let bytes := frontLine c.rest
    match Text.decodeUtf8? bytes with
    | some line => .ok (some (line, c.advance bytes.length))
    | none => .error .undecodableLine

theorem readLine_eq_some {c c' : Cursor} {line : List Char}
    (h : readLine c = .ok (some (line, c'))) :
    c.rest ≠ [] ∧ c' = c.advance (frontLine c.rest).length := by
  unfold readLine at h
  split at h
  · cases h
  · next hne =>
    dsimp only at h
    split at h
    · cases h
      exact ⟨hne, rfl⟩
    · cases h

theorem readLine_ahead {c c' : Cursor} {line : List Char}
    (h : readLine c = .ok (some (line, c'))) : c.Ahead c' := by
  obtain ⟨-, rfl⟩ := readLine_eq_some h
  exact ahead_advance (length_frontLine_le c.rest)

theorem readLine_shrinks {c c' : Cursor} {line : List Char}
    (h : readLine c = .ok (some (line, c'))) : c'.rest.length < c.rest.length := by
  obtain ⟨hne, rfl⟩ := readLine_eq_some h
  have hpos := length_frontLine_pos hne
  have hle := length_frontLine_le c.rest
  simp only [advance, List.length_drop]
  omega

/-- The header on the next line that is not blank. -/
def readHeader (c : Cursor) : Outcome (Option (Header × Cursor)) :=
  match _h : readLine c with
  | .error fault => .error fault
  | .ok none => .ok none
  | .ok (some (line, c')) =>
    if Text.trim line = [] then readHeader c'
    else do return some (← Header.ofLine line, c')
termination_by c.rest.length
decreasing_by exact readLine_shrinks _h

def takeLines (name : String) (expected : Nat) :
    Nat → Cursor → Outcome (List (List Char) × Cursor)
  | 0, c => .ok ([], c)
  | left + 1, c => do
    match ← readLine c with
    | none => reject (.missingLines name (expected - (left + 1)) expected)
    | some (line, c) =>
      let (lines, c) ← takeLines name expected left c
      return (line :: lines, c)

theorem takeLines_succ_eq_ok {name : String} {expected left : Nat} {c c' : Cursor}
    {lines : List (List Char)} (h : takeLines name expected (left + 1) c = .ok (lines, c')) :
    ∃ line c₁ back, readLine c = .ok (some (line, c₁)) ∧
      takeLines name expected left c₁ = .ok (back, c') ∧ lines = line :: back := by
  obtain ⟨⟨line, c₁⟩, hline, h⟩ := some_of_bind h (by simp [reject])
  obtain ⟨⟨back, c₂⟩, hback, h⟩ := bind_eq_ok.1 h
  cases h
  exact ⟨line, c₁, back, hline, hback, rfl⟩

def dataLinesOf (h : Header) (c : Cursor) : Outcome (List (List Char) × Cursor) :=
  let expected := h.type.lineCount h.count
  takeLines h.name expected expected c

end Lines

namespace Encoding

def readHeader : Encoding → Cursor → Outcome (Option (Header × Cursor))
  | .text, c => Lines.readHeader c
  | .binary order, c => Records.readHeader order c

def readPayload : Encoding → Header → Cursor → Outcome (Bytes × Cursor)
  | .text, h, c => do
    let (lines, c) ← Lines.dataLinesOf h c
    return (← Lines.payload h lines, c)
  | .binary order, h, c => Records.readPayload order h c

theorem readPayload_text_eq_ok {h : Header} {c c' : Cursor} {payload : Bytes}
    (hr : text.readPayload h c = .ok (payload, c')) :
    ∃ lines, Lines.dataLinesOf h c = .ok (lines, c') ∧ Lines.payload h lines = .ok payload := by
  obtain ⟨⟨lines, c₁⟩, hlines, hr⟩ := bind_eq_ok.1 hr
  obtain ⟨bytes, hbytes, hr⟩ := bind_eq_ok.1 hr
  cases hr
  exact ⟨lines, hlines, hbytes⟩

theorem readPayload_binary_eq_ok {order : ByteOrder} {h : Header} {c c' : Cursor}
    {payload : Bytes} (hr : (binary order).readPayload h c = .ok (payload, c')) :
    ∃ bytes, Records.readBlocks order h (Records.stored h) c = .ok (bytes, c') ∧
      payload = Records.reorder order h.type bytes := by
  obtain ⟨⟨bytes, c₁⟩, hblocks, hr⟩ := bind_eq_ok.1 hr
  cases hr
  exact ⟨bytes, hblocks, rfl⟩

/-- Passes the data of a keyword; only lines are taken from the stream. -/
def skipPayload (streamLength : Nat) : Encoding → Header → Cursor → Outcome Cursor
  | .text, h, c => do return (← Lines.dataLinesOf h c).2
  | .binary order, h, c => Records.skipBlocks order streamLength h (Records.stored h) c

def decodeNext (encoding : Encoding) (c : Cursor) : Outcome (Keyword × Cursor) := do
  match ← encoding.readHeader c with
  | none => .error .endOfStream
  | some (h, c) =>
    let (payload, c) ← encoding.readPayload h c
    return (← Keyword.ofPayload h.name h.type h.count payload, c)

theorem of_decodeNext_eq_ok {encoding : Encoding} {c c' : Cursor} {k : Keyword}
    (hr : encoding.decodeNext c = .ok (k, c')) :
    ∃ h data payload, encoding.readHeader c = .ok (some (h, data)) ∧
      encoding.readPayload h data = .ok (payload, c') ∧
      Keyword.ofPayload h.name h.type h.count payload = .ok k := by
  obtain ⟨⟨h, data⟩, hheader, hr⟩ := some_of_bind hr (by simp)
  obtain ⟨⟨payload, next⟩, hpayload, hr⟩ := bind_eq_ok.1 hr
  obtain ⟨keyword, hkeyword, hr⟩ := bind_eq_ok.1 hr
  cases hr
  exact ⟨h, data, payload, hheader, hpayload, hkeyword⟩

end Encoding

end Reservoir
