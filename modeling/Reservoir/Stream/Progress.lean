import Reservoir.Stream.Codec

/-!
Reading moves a cursor along its stream: what is left at the new place is what the stream has
from there on. So going back to a place that was reached once finds the same bytes again, and a
walk over a stream, which takes at least a header at each step, ends.
-/

namespace Reservoir

open Cursor Outcome

namespace Records

theorem readBlocks_ahead {order : ByteOrder} {h : Header} {left : Nat} {c c' : Cursor}
    {bytes : Bytes} (hr : readBlocks order h left c = .ok (bytes, c')) : c.Ahead c' := by
  induction left using Nat.strongRecOn generalizing c bytes with
  | ind left ih =>
    by_cases hleft : left = 0
    · rw [hleft, readBlocks_zero] at hr
      cases hr
      exact Ahead.refl _
    · have hpos := h.type.blockSize_pos
      obtain ⟨front, c₁, back, hread, -, hback, -⟩ := readBlocks_eq_ok hleft hr
      exact (Record.read_ahead hread).trans (ih _ (by omega) hback)

theorem skipBlocks_ahead {order : ByteOrder} {streamLength : Nat} {h : Header} {left : Nat}
    {c c' : Cursor} (hr : skipBlocks order streamLength h left c = .ok c') : c.Ahead c' := by
  induction left using Nat.strongRecOn generalizing c with
  | ind left ih =>
    by_cases hleft : left = 0
    · rw [hleft, skipBlocks_zero] at hr
      cases hr
      exact Ahead.refl _
    · have hpos := h.type.blockSize_pos
      obtain ⟨c₁, hskip, hback⟩ := skipBlocks_eq_ok hleft hr
      exact (Record.skip_ahead hskip).trans (ih _ (by omega) hback)

end Records

namespace Lines

theorem readHeader_ahead {c c' : Cursor} {h : Header}
    (hr : readHeader c = .ok (some (h, c'))) : c.Ahead c' := by
  fun_induction readHeader c with
  | case1 => cases hr
  | case2 => cases hr
  | case3 c line c₁ hline hblank ih => exact (readLine_ahead hline).trans (ih hr)
  | case4 c line c₁ hline hblank =>
    obtain ⟨header, -, hr⟩ := bind_eq_ok.1 hr
    cases hr
    exact readLine_ahead hline

theorem readHeader_shrinks {c c' : Cursor} {h : Header}
    (hr : readHeader c = .ok (some (h, c'))) : c'.rest.length < c.rest.length := by
  fun_induction readHeader c with
  | case1 => cases hr
  | case2 => cases hr
  | case3 c line c₁ hline hblank ih => exact Nat.lt_trans (ih hr) (readLine_shrinks hline)
  | case4 c line c₁ hline hblank =>
    obtain ⟨header, -, hr⟩ := bind_eq_ok.1 hr
    cases hr
    exact readLine_shrinks hline

theorem takeLines_ahead {name : String} {expected left : Nat} {c c' : Cursor}
    {lines : List (List Char)} (h : takeLines name expected left c = .ok (lines, c')) :
    c.Ahead c' := by
  induction left generalizing c lines with
  | zero =>
    cases h
    exact Ahead.refl _
  | succ left ih =>
    obtain ⟨line, c₁, back, hline, hback, -⟩ := takeLines_succ_eq_ok h
    exact (readLine_ahead hline).trans (ih hback)

end Lines

namespace Encoding

theorem readHeader_ahead {encoding : Encoding} {c c' : Cursor} {h : Header}
    (hr : encoding.readHeader c = .ok (some (h, c'))) : c.Ahead c' := by
  cases encoding with
  | text => exact Lines.readHeader_ahead hr
  | binary order =>
    obtain ⟨bytes, hread, -⟩ := Records.readHeader_eq_some hr
    exact Record.read_ahead hread

theorem readHeader_shrinks {encoding : Encoding} {c c' : Cursor} {h : Header}
    (hr : encoding.readHeader c = .ok (some (h, c'))) : c'.rest.length < c.rest.length := by
  cases encoding with
  | text => exact Lines.readHeader_shrinks hr
  | binary order =>
    obtain ⟨bytes, hread, -⟩ := Records.readHeader_eq_some hr
    exact Record.read_shrinks hread

theorem readPayload_ahead {encoding : Encoding} {h : Header} {c c' : Cursor} {payload : Bytes}
    (hr : encoding.readPayload h c = .ok (payload, c')) : c.Ahead c' := by
  cases encoding with
  | text =>
    obtain ⟨lines, hlines, -⟩ := readPayload_text_eq_ok hr
    exact Lines.takeLines_ahead hlines
  | binary order =>
    obtain ⟨bytes, hblocks, -⟩ := readPayload_binary_eq_ok hr
    exact Records.readBlocks_ahead hblocks

theorem skipPayload_ahead {streamLength : Nat} {encoding : Encoding} {h : Header}
    {c c' : Cursor} (hr : encoding.skipPayload streamLength h c = .ok c') : c.Ahead c' := by
  cases encoding with
  | text =>
    obtain ⟨⟨lines, c₁⟩, hlines, hr⟩ := bind_eq_ok.1 hr
    cases hr
    exact Lines.takeLines_ahead hlines
  | binary order => exact Records.skipBlocks_ahead hr

theorem decodeNext_shrinks {encoding : Encoding} {c c' : Cursor} {k : Keyword}
    (hr : encoding.decodeNext c = .ok (k, c')) : c'.rest.length < c.rest.length := by
  obtain ⟨h, data, payload, hheader, hpayload, -⟩ := of_decodeNext_eq_ok hr
  exact Nat.lt_of_le_of_lt (readPayload_ahead hpayload).length_le (readHeader_shrinks hheader)

end Encoding

end Reservoir
