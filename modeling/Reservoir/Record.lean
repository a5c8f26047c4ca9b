import Reservoir.Fault

/-!
Framed records. A record is its payload between two equal length markers. Reading takes the
payload, skipping only checks the frame; both move on by the same bytes.
-/

namespace Reservoir

structure Cursor where
  position : Nat
  rest : Bytes
deriving DecidableEq, Repr

namespace Cursor

def start (stream : Bytes) : Cursor := ⟨0, stream⟩

def seek (stream : Bytes) (position : Nat) : Cursor := ⟨position, stream.drop position⟩

def front (c : Cursor) (n : Nat) : Bytes := c.rest.take n

def advance (c : Cursor) (n : Nat) : Cursor := ⟨c.position + n, c.rest.drop n⟩

/-- The second cursor stands further along, within the stream of the first. -/
def Ahead (c c' : Cursor) : Prop := ∃ n, n ≤ c.rest.length ∧ c' = c.advance n

theorem Ahead.refl (c : Cursor) : c.Ahead c := ⟨0, Nat.zero_le _, rfl⟩

theorem Ahead.trans {a b c : Cursor} (hab : a.Ahead b) (hbc : b.Ahead c) : a.Ahead c := by
  obtain ⟨m, hm, rfl⟩ := hab
  obtain ⟨n, hn, rfl⟩ := hbc
  simp only [advance, List.length_drop] at hn
  refine ⟨m + n, by omega, ?_⟩
  simp only [advance, List.drop_drop, Nat.add_assoc]

theorem ahead_advance {c : Cursor} {n : Nat} (h : n ≤ c.rest.length) : c.Ahead (c.advance n) :=
  ⟨n, h, rfl⟩

theorem Ahead.position_add_length {c c' : Cursor} (h : c.Ahead c') :
    c'.position + c'.rest.length = c.position + c.rest.length := by
  obtain ⟨n, hn, rfl⟩ := h
  simp only [advance, List.length_drop]
  omega

theorem Ahead.length_le {c c' : Cursor} (h : c.Ahead c') : c'.rest.length ≤ c.rest.length := by
  obtain ⟨n, hn, rfl⟩ := h
  simp only [advance, List.length_drop]
  omega

theorem Ahead.eq_seek {stream : Bytes} {c : Cursor} (h : (start stream).Ahead c) :
    seek stream c.position = c := by
  obtain ⟨n, hn, rfl⟩ := h
  simp only [start, advance, seek, Nat.zero_add]

theorem Ahead.length_stream {stream : Bytes} {c : Cursor} (h : (start stream).Ahead c) :
    c.position + c.rest.length = stream.length := by
  rw [h.position_add_length, start, Nat.zero_add]

end Cursor

open Cursor Outcome

namespace Record

def markerSize : Nat := 4

/-- A length marker and the place after it; nothing at the end of the stream. -/
def readMarker (order : ByteOrder) (c : Cursor) : Outcome (Option (Int × Cursor)) :=
  let bytes := c.front markerSize
  if bytes.length = 0 then .ok none
  else if bytes.length < markerSize then .error (.truncated markerSize bytes.length)
  else .ok (some ((order.decodeInt32 bytes).toInt, c.advance markerSize))

def readLength (order : ByteOrder) (c : Cursor) : Outcome (Option (Nat × Cursor)) := do
  match ← readMarker order c with
  | none => return none
  | some (marker, c) =>
    if marker < 0 then reject (.negativeMarker marker) else return some (marker.toNat, c)

/-- The marker after a payload of `length` bytes must repeat the one before it. -/
def readTrailer (order : ByteOrder) (length : Nat) (c : Cursor) : Outcome Cursor := do
  match ← readMarker order c with
  | none => .error (.truncated markerSize 0)
  | some (marker, c) =>
    if marker = length then return c else .error (.framing length marker)

def read (order : ByteOrder) (c : Cursor) : Outcome (Option (Bytes × Cursor)) := do
  match ← readLength order c with
  | none => return none
  | some (length, c) =>
    let payload := c.front length
    if payload.length < length then .error (.truncated length payload.length)
    else return some (payload, ← readTrailer order length (c.advance length))

def skip (order : ByteOrder) (streamLength : Nat) (c : Cursor) :
    Outcome (Option (Nat × Cursor)) := do
  match ← readLength order c with
  | none => return none
  | some (length, c) =>
    let remaining := streamLength - c.position
    if remaining < length + markerSize then
      .error (.truncated (length + markerSize) remaining)
    else return some (length, ← readTrailer order length (c.advance length))

def frame (order : ByteOrder) (payload : Bytes) : Outcome Bytes :=
  if payload.length ≤ wordLimit then
    let marker := order.encode markerSize payload.length
    .ok (marker ++ payload ++ marker)
  else reject (.recordTooLong payload.length)

theorem readMarker_eq_some {order : ByteOrder} {c c' : Cursor} {marker : Int}
    (h : readMarker order c = .ok (some (marker, c'))) :
    markerSize ≤ c.rest.length ∧ c' = c.advance markerSize := by
  simp only [readMarker, front, List.length_take] at h
  split at h
  · cases h
  · split at h
    · cases h
    · cases h
      exact ⟨by omega, rfl⟩

theorem readLength_eq_some {order : ByteOrder} {c c' : Cursor} {length : Nat}
    (h : readLength order c = .ok (some (length, c'))) :
    readMarker order c = .ok (some ((length : Int), c')) := by
  obtain ⟨⟨marker, c₁⟩, hmarker, h⟩ := some_of_bind h (by simp)
  dsimp only at h
  split at h
  · cases h
  · cases h
    rw [hmarker, Int.toNat_of_nonneg (by omega)]

theorem readTrailer_eq_ok {order : ByteOrder} {length : Nat} {c c' : Cursor}
    (h : readTrailer order length c = .ok c') :
    readMarker order c = .ok (some ((length : Int), c')) := by
  obtain ⟨⟨marker, c₁⟩, hmarker, h⟩ := some_of_bind h (by simp)
  dsimp only at h
  split at h
  · next heq =>
    cases h
    rw [hmarker, heq]
  · cases h

theorem read_eq_some {order : ByteOrder} {c c' : Cursor} {payload : Bytes}
    (h : read order c = .ok (some (payload, c'))) :
    ∃ c₁, readLength order c = .ok (some (payload.length, c₁)) ∧
      payload = c₁.front payload.length ∧
      readTrailer order payload.length (c₁.advance payload.length) = .ok c' := by
  obtain ⟨⟨length, c₁⟩, hlength, h⟩ := some_of_bind h (by simp)
  dsimp only at h
  split at h
  · cases h
  · obtain ⟨c₂, htrailer, h⟩ := bind_eq_ok.1 h
    cases h
    have hfront : (c₁.front length).length = length := by
      simp only [front, List.length_take] at *
      omega
    rw [hfront]
    exact ⟨c₁, hlength, rfl, htrailer⟩

theorem skip_eq_some {order : ByteOrder} {streamLength : Nat} {c c' : Cursor} {length : Nat}
    (h : skip order streamLength c = .ok (some (length, c'))) :
    ∃ c₁, readLength order c = .ok (some (length, c₁)) ∧
      readTrailer order length (c₁.advance length) = .ok c' := by
  obtain ⟨⟨found, c₁⟩, hlength, h⟩ := some_of_bind h (by simp)
  dsimp only at h
  split at h
  · cases h
  · obtain ⟨c₂, htrailer, h⟩ := bind_eq_ok.1 h
    cases h
    exact ⟨c₁, hlength, htrailer⟩

theorem readLength_ahead {order : ByteOrder} {c c' : Cursor} {length : Nat}
    (h : readLength order c = .ok (some (length, c'))) : c.Ahead c' := by
  obtain ⟨hfull, rfl⟩ := readMarker_eq_some (readLength_eq_some h)
  exact ahead_advance hfull

theorem readTrailer_ahead {order : ByteOrder} {length : Nat} {c c' : Cursor}
    (h : readTrailer order length (c.advance length) = .ok c') : c.Ahead c' := by
  obtain ⟨hfull, rfl⟩ := readMarker_eq_some (readTrailer_eq_ok h)
  have hroom : length ≤ c.rest.length := by
    simp only [advance, List.length_drop, markerSize] at hfull
    omega
  exact (ahead_advance hroom).trans (ahead_advance hfull)

theorem read_ahead {order : ByteOrder} {c c' : Cursor} {payload : Bytes}
    (h : read order c = .ok (some (payload, c'))) : c.Ahead c' := by
  obtain ⟨c₁, hlength, -, htrailer⟩ := read_eq_some h
  exact (readLength_ahead hlength).trans (readTrailer_ahead htrailer)

theorem skip_ahead {order : ByteOrder} {streamLength : Nat} {c c' : Cursor} {length : Nat}
    (h : skip order streamLength c = .ok (some (length, c'))) : c.Ahead c' := by
  obtain ⟨c₁, hlength, htrailer⟩ := skip_eq_some h
  exact (readLength_ahead hlength).trans (readTrailer_ahead htrailer)

theorem readLength_shrinks {order : ByteOrder} {c c' : Cursor} {length : Nat}
    (h : readLength order c = .ok (some (length, c'))) : c'.rest.length < c.rest.length := by
  obtain ⟨hfull, rfl⟩ := readMarker_eq_some (readLength_eq_some h)
  simp only [advance, List.length_drop, markerSize] at *
  omega

theorem read_shrinks {order : ByteOrder} {c c' : Cursor} {payload : Bytes}
    (h : read order c = .ok (some (payload, c'))) : c'.rest.length < c.rest.length := by
  obtain ⟨c₁, hlength, -, htrailer⟩ := read_eq_some h
  exact Nat.lt_of_le_of_lt (readTrailer_ahead htrailer).length_le (readLength_shrinks hlength)

theorem skip_shrinks {order : ByteOrder} {streamLength : Nat} {c c' : Cursor} {length : Nat}
    (h : skip order streamLength c = .ok (some (length, c'))) :
    c'.rest.length < c.rest.length := by
  obtain ⟨c₁, hlength, htrailer⟩ := skip_eq_some h
  exact Nat.lt_of_le_of_lt (readTrailer_ahead htrailer).length_le (readLength_shrinks hlength)

/-- All records up to the end of the stream or the first fault. -/
def readAll (order : ByteOrder) (c : Cursor) : List Bytes × Option Fault :=
  match _h : read order c with
  | .error fault => ([], some fault)
  | .ok none => ([], none)
  | .ok (some (payload, c')) =>
    let (payloads, fault) := readAll order c'
    (payload :: payloads, fault)
termination_by c.rest.length
decreasing_by exact read_shrinks _h

def skipAll (order : ByteOrder) (streamLength : Nat) (c : Cursor) : List Nat × Option Fault :=
  match _h : skip order streamLength c with
  | .error fault => ([], some fault)
  | .ok none => ([], none)
  | .ok (some (length, c')) =>
    let (lengths, fault) := skipAll order streamLength c'
    (length :: lengths, fault)
termination_by c.rest.length
decreasing_by exact skip_shrinks _h

end Record

end Reservoir
