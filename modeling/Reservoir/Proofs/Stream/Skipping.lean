import Mathlib.Algebra.Ring.Nat
import Reservoir.Proofs.Outcome
import Reservoir.Stream.Progress

/-!
Skipping a record accepts what reading it accepts and ends at the same place. Both refuse the
other records, and for the same cause: a record that runs past the end of the stream is cut off
either way, whether its payload or its trailer is missing.
-/

namespace Reservoir

open Cursor Outcome

namespace Record

/-- Faults of one cause: a record that is cut off, wherever that was noticed, or the same markers
that disagree, or the same marker below zero. -/
inductive SameCause : Fault → Fault → Prop
  | truncated (expected found expected' found' : Nat) :
      SameCause (.truncated expected found) (.truncated expected' found')
  | framing {leading trailing : Int} (h : trailing ≠ leading) :
      SameCause (.framing leading trailing) (.framing leading trailing)
  | negative {marker : Int} (h : marker < 0) :
      SameCause (.malformed (.negativeMarker marker)) (.malformed (.negativeMarker marker))

theorem SameCause.kind_eq {fault fault' : Fault} (h : SameCause fault fault') :
    fault.kind = fault'.kind := by
  cases h with
  | truncated => rfl
  | framing h => rfl
  | negative h => rfl

theorem sameCause_of_readMarker {order : ByteOrder} {c : Cursor} {fault : Fault}
    (h : readMarker order c = .error fault) : SameCause fault fault := by
  unfold readMarker at h
  dsimp only at h
  split at h
  · cases h
  · split at h
    · cases h
      exact .truncated ..
    · cases h

theorem sameCause_of_readLength {order : ByteOrder} {c : Cursor} {fault : Fault}
    (h : readLength order c = .error fault) : SameCause fault fault := by
  rcases bind_eq_error.1 h with hmarker | ⟨found, -, h⟩
  · exact sameCause_of_readMarker hmarker
  · cases found with
    | none => cases h
    | some found =>
      dsimp only at h
      split at h
      · next hnegative =>
        cases h
        exact .negative hnegative
      · cases h

theorem sameCause_of_readTrailer {order : ByteOrder} {length : Nat} {c : Cursor} {fault : Fault}
    (h : readTrailer order length c = .error fault) : SameCause fault fault := by
  rcases bind_eq_error.1 h with hmarker | ⟨found, -, h⟩
  · exact sameCause_of_readMarker hmarker
  · cases found with
    | none =>
      cases h
      exact .truncated ..
    | some found =>
      dsimp only at h
      split at h
      · cases h
      · next hdiffer =>
        cases h
        exact .framing hdiffer

theorem readTrailer_short {c : Cursor} (h : c.rest.length < markerSize) (order : ByteOrder)
    (length : Nat) : ∃ expected found, readTrailer order length c =
      .error (.truncated expected found) := by
  have hlen : (c.front markerSize).length = c.rest.length := by
    simp only [front, List.length_take]
    omega
  by_cases hzero : c.rest.length = 0
  · exact ⟨markerSize, 0, by simp [readTrailer, readMarker, hlen, hzero]⟩
  · exact ⟨markerSize, c.rest.length, by simp [readTrailer, readMarker, hlen, hzero, h]⟩

/-- What a record comes to when it is read and when it is passed: the end of the stream, a payload
and its length with the same place behind it, or faults of one cause. -/
inductive Alike : Outcome (Option (Bytes × Cursor)) → Outcome (Option (Nat × Cursor)) → Prop
  | ended : Alike (.ok none) (.ok none)
  | passed (payload : Bytes) (next : Cursor) :
      Alike (.ok (some (payload, next))) (.ok (some (payload.length, next)))
  | failed {fault fault' : Fault} (h : SameCause fault fault') :
      Alike (.error fault) (.error fault')

theorem Alike.iff {found : Outcome (Option (Bytes × Cursor))}
    {passed : Outcome (Option (Nat × Cursor))} (h : Alike found passed) :
    (passed = .ok none ↔ found = .ok none) ∧
      (∀ length next, passed = .ok (some (length, next)) ↔
        ∃ payload, found = .ok (some (payload, next)) ∧ payload.length = length) ∧
      (∀ fault, found = .error fault → ∃ fault', passed = .error fault' ∧ SameCause fault fault') ∧
      ∀ fault', passed = .error fault' →
        ∃ fault, found = .error fault ∧ SameCause fault fault' := by
  cases h with
  | ended => simp
  | passed payload next =>
    refine ⟨by simp, fun length place => ?_, by simp, by simp⟩
    simp only [Except.ok.injEq, Option.some.injEq, Prod.mk.injEq]
    constructor
    · rintro ⟨rfl, rfl⟩
      exact ⟨payload, ⟨rfl, rfl⟩, rfl⟩
    · rintro ⟨_, ⟨rfl, rfl⟩, rfl⟩
      exact ⟨rfl, rfl⟩
  | failed hcause =>
    refine ⟨by simp, by simp, fun fault heq => ?_, fun fault heq => ?_⟩
    · cases heq
      exact ⟨_, rfl, hcause⟩
    · cases heq
      exact ⟨_, rfl, hcause⟩

theorem alike_read_skip (order : ByteOrder) {streamLength : Nat} {c : Cursor}
    (h : c.rest.length = streamLength - c.position) :
    Alike (read order c) (skip order streamLength c) := by
  unfold read skip
  cases hlength : readLength order c with
  | error fault => exact .failed (sameCause_of_readLength hlength)
  | ok found =>
    cases found with
    | none => exact .ended
    | some found =>
      obtain ⟨length, c₁⟩ := found
      have hremaining : streamLength - c₁.position = c₁.rest.length := by
        obtain ⟨n, -, rfl⟩ := readLength_ahead hlength
        simp only [advance, List.length_drop]
        omega
      simp only [ok_bind, front, List.length_take, hremaining]
      by_cases hpayload : c₁.rest.length < length
      · rw [if_pos (by omega), if_pos (by omega)]
        exact .failed (.truncated ..)
      · rw [if_neg (by omega)]
        by_cases htrailer : c₁.rest.length < length + markerSize
        · have hshort : (c₁.advance length).rest.length < markerSize := by
            simp only [advance, List.length_drop]
            omega
          obtain ⟨expected, found, hcut⟩ := readTrailer_short hshort order length
          rw [if_pos htrailer, hcut]
          exact .failed (.truncated ..)
        · have hfront : (c₁.rest.take length).length = length := by
            rw [List.length_take]
            omega
          rw [if_neg htrailer]
          cases hend : readTrailer order length (c₁.advance length) with
          | error fault => exact .failed (sameCause_of_readTrailer hend)
          | ok next =>
            have hpassed := Alike.passed (c₁.rest.take length) next
            rwa [hfront] at hpassed

theorem read_agree_skip (order : ByteOrder) {streamLength : Nat} {c : Cursor}
    (h : c.position + c.rest.length = streamLength) :
    Agree (fun found passed => passed = found.map fun record => (record.1.length, record.2))
      (read order c) (skip order streamLength c) := by
  have halike := alike_read_skip order (show c.rest.length = streamLength - c.position by omega)
  generalize read order c = found, skip order streamLength c = passed at halike
  cases halike with
  | ended => rfl
  | passed payload next => rfl
  | failed hcause => exact hcause.kind_eq

theorem length_of_read {order : ByteOrder} {c next : Cursor} {payload : Bytes}
    (h : read order c = .ok (some (payload, next))) :
    c.rest.length = payload.length + 2 * markerSize + next.rest.length := by
  obtain ⟨c₁, hlength, -, htrailer⟩ := read_eq_some h
  obtain ⟨hlead, rfl⟩ := readMarker_eq_some (readLength_eq_some hlength)
  obtain ⟨htrail, rfl⟩ := readMarker_eq_some (readTrailer_eq_ok htrailer)
  simp only [advance, List.length_drop, markerSize] at *
  omega

theorem skipAll_eq (order : ByteOrder) (streamLength : Nat) (c : Cursor) :
    skipAll order streamLength c = match skip order streamLength c with
      | .error fault => ([], some fault)
      | .ok none => ([], none)
      | .ok (some (length, next)) =>
        (length :: (skipAll order streamLength next).1, (skipAll order streamLength next).2) := by
  rw [skipAll]
  split
  · next fault hskip => rw [hskip]
  · next hskip => rw [hskip]
  · next length next hskip => rw [hskip]

/-- Repeated reading and repeated passing meet the same records and end for the same cause, and
there are no more records than the stream has room for. -/
theorem alike_readAll_skipAll (order : ByteOrder) {streamLength : Nat} {c : Cursor}
    (h : c.rest.length = streamLength - c.position) :
    (skipAll order streamLength c).1 = (readAll order c).1.map List.length ∧
      Option.Rel SameCause (readAll order c).2 (skipAll order streamLength c).2 ∧
      ((readAll order c).1.map fun payload => payload.length + 2 * markerSize).sum ≤
        c.rest.length := by
  have halike := alike_read_skip order h
  rw [skipAll_eq]
  fun_induction readAll order c with
  | case1 c fault hread =>
    rw [hread] at halike
    generalize skip order streamLength c = passed at halike
    cases halike with
    | failed hcause => exact ⟨rfl, .some hcause, Nat.zero_le _⟩
  | case2 c hread =>
    rw [hread] at halike
    generalize skip order streamLength c = passed at halike
    cases halike with
    | ended => exact ⟨rfl, .none, Nat.zero_le _⟩
  | case3 c payload next hread payloads fault hrest ih =>
    have hlength := length_of_read hread
    obtain ⟨n, hn, rfl⟩ := read_ahead hread
    rw [hread] at halike
    generalize skip order streamLength c = passed at halike
    cases halike with
    | passed =>
      have hnext : (c.advance n).rest.length = streamLength - (c.advance n).position := by
        simp only [advance, List.length_drop]
        omega
      obtain ⟨hlengths, hstop, hroom⟩ := ih hnext (alike_read_skip order hnext)
      rw [hrest] at hlengths hstop hroom
      rw [← skipAll_eq] at hlengths hstop
      refine ⟨congrArg _ hlengths, hstop, ?_⟩
      dsimp only at hroom
      simp only [List.map_cons, List.sum_cons]
      omega

/-- Reading takes something from the stream each time, so it cannot go on for ever. -/
theorem wellFounded_read (order : ByteOrder) :
    WellFounded fun next c => ∃ payload, read order c = .ok (some (payload, next)) :=
  Subrelation.wf (fun ⟨_, hread⟩ => read_shrinks hread)
    (InvImage.wf (fun c : Cursor => c.rest.length) Nat.lt_wfRel.wf)

theorem wellFounded_skip (order : ByteOrder) (streamLength : Nat) :
    WellFounded fun next c => ∃ length, skip order streamLength c = .ok (some (length, next)) :=
  Subrelation.wf (fun ⟨_, hskip⟩ => skip_shrinks hskip)
    (InvImage.wf (fun c : Cursor => c.rest.length) Nat.lt_wfRel.wf)

/-- Passing a record agrees with reading it, wherever in a stream they start: both find the end of
the stream, or a record with the same place behind it, or fail for one cause. Neither can be
repeated for ever. Repeated from the same place both meet the same records, no more of them than
there is room for, and stop for one cause. -/
theorem skip_agrees_read (order : ByteOrder) (stream : Bytes) (position : Nat) :
    let c := Cursor.seek stream position
    let found := read order c
    let passed := skip order stream.length c
    (passed = .ok none ↔ found = .ok none) ∧
      (∀ length next, passed = .ok (some (length, next)) ↔
        ∃ payload, found = .ok (some (payload, next)) ∧ payload.length = length) ∧
      (∀ fault, found = .error fault → ∃ fault', passed = .error fault' ∧ SameCause fault fault') ∧
      (∀ fault', passed = .error fault' → ∃ fault, found = .error fault ∧ SameCause fault fault') ∧
      (WellFounded fun next c => ∃ payload, read order c = .ok (some (payload, next))) ∧
      (∀ streamLength, WellFounded fun next c =>
        ∃ length, skip order streamLength c = .ok (some (length, next))) ∧
      (skipAll order stream.length c).1 = (readAll order c).1.map List.length ∧
      Option.Rel SameCause (readAll order c).2 (skipAll order stream.length c).2 ∧
      ((readAll order c).1.map fun payload => payload.length + 2 * markerSize).sum ≤
        stream.length - position := by
  intro c found passed
  have hrest : c.rest.length = stream.length - c.position := List.length_drop
  obtain ⟨hended, hpassed, hfailed, hfailed'⟩ := (alike_read_skip order hrest).iff
  obtain ⟨hlengths, hstop, hroom⟩ := alike_readAll_skipAll order hrest
  rw [hrest] at hroom
  exact ⟨hended, hpassed, hfailed, hfailed', wellFounded_read order, wellFounded_skip order,
    hlengths, hstop, hroom⟩

/-- A trailer that disagrees and a payload that is cut off, met in passing. -/
theorem skip_agrees_read_faults :
    let frames : Bytes := [0, 0, 0, 0, 0, 0, 0, 0, 1, 0, 0, 0, 7, 2, 0, 0, 0]
    let cut : Bytes := [3, 0, 0, 0, 7]
    (∃ next, skip .little frames.length (.seek frames 0) = .ok (some (0, next)) ∧
      next.position = 8) ∧
      skip .little frames.length (.seek frames 8) = .error (.framing 1 2) ∧
      ∃ fault, skip .little cut.length (.seek cut 0) = .error fault ∧ fault.kind = .truncated := by
  intro frames cut
  have hempty : read .little (.seek frames 0) = .ok (some ([], .seek frames 8)) := by decide +kernel
  have hframing : read .little (.seek frames 8) = .error (.framing 1 2) := by decide +kernel
  have hcut : read .little (.seek cut 0) = .error (.truncated 3 1) := by decide +kernel
  refine ⟨⟨_, ((skip_agrees_read .little frames 0).2.1 0 _).2 ⟨[], hempty, rfl⟩, rfl⟩, ?_, ?_⟩
  · obtain ⟨fault, hfault, hcause⟩ := (skip_agrees_read .little frames 8).2.2.1 _ hframing
    cases hcause with
    | framing => exact hfault
  · obtain ⟨fault, hfault, hcause⟩ := (skip_agrees_read .little cut 0).2.2.1 _ hcut
    exact ⟨fault, hfault, hcause.kind_eq.symm⟩

end Record

theorem Records.readBlocks_agree_skipBlocks (order : ByteOrder) {streamLength : Nat} (h : Header)
    (left : Nat) {c : Cursor} (hc : c.position + c.rest.length = streamLength) :
    Agree (fun read passed => read.2 = passed) (readBlocks order h left c)
      (skipBlocks order streamLength h left c) := by
  induction left using Nat.strongRecOn generalizing c with
  | ind left ih =>
    rw [readBlocks, skipBlocks]
    split
    · rfl
    · next hleft =>
      have hpos := h.type.blockSize_pos
      refine (Record.read_agree_skip order hc).bind fun found passed hread hsame => ?_
      subst hsame
      cases found with
      | none => rfl
      | some found =>
        obtain ⟨front, c₁⟩ := found
        have hc₁ : c₁.position + c₁.rest.length = streamLength := by
          rw [(Record.read_ahead hread).position_add_length, hc]
        have hback := ih (left - h.type.blockSize) (by omega) hc₁
        refine (Agree.refl (R := Eq) (fun _ => rfl) _).bind fun _ _ _ _ => ?_
        exact hback.bind_left fun _ _ hsame => hsame

end Reservoir
